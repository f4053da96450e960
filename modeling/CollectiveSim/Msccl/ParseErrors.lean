import Mathlib
import CollectiveSim.Msccl.InPlace
import CollectiveSim.Msccl.SwitchJson
import CollectiveSim.Msccl.Document

/-!
# What a failed parse leaves

Both parsers stop at the first error and undo nothing, so that exactly the elements in front of the
error take effect.
-/

namespace CollectiveSim.Msccl

open Framework

/-- All `gpu` elements before the one with the error are committed. Of that one nothing is, if its
attributes are at fault, and otherwise the algorithm of its GPU is left invalid. -/
inductive AlgosStopped (nRanks : Nat) (document : Option (Option XmlNode)) (algos : Nat → MscclAlgorithm)
    (e : AlgoParseError) : (Nat → MscclAlgorithm) → Prop
  | before (h : readAlgo nRanks document = .error e) : AlgosStopped nRanks document algos e algos
  | attributes {algo : AlgoElement} {done : List XmlNode} {gpu : XmlNode} {rest : List XmlNode}
      {rs : List (Nat × MscclAlgorithm)} (hread : readAlgo nRanks document = .ok algo)
      (hgpus : algo.gpus = done ++ gpu :: rest)
      (hdone : List.Forall₂ (fun gpu r => algo.parse nRanks gpu = .ok r) done rs)
      (hgpu : readGpu nRanks gpu = .error e) :
      AlgosStopped nRanks document algos e (rs.foldl commit algos)
  | inside {algo : AlgoElement} {done : List XmlNode} {gpu : XmlNode} {rest : List XmlNode}
      {rs : List (Nat × MscclAlgorithm)} {gpuId : Int} {chunks : BufferChunks}
      {mscclAlgo : MscclAlgorithm} (hread : readAlgo nRanks document = .ok algo)
      (hgpus : algo.gpus = done ++ gpu :: rest)
      (hdone : List.Forall₂ (fun gpu r => algo.parse nRanks gpu = .ok r) done rs)
      (hgpu : readGpu nRanks gpu = .ok (gpuId, chunks)) (herror : algo.parse nRanks gpu = .error e)
      (hinvalid : mscclAlgo.isValid = false) :
      AlgosStopped nRanks document algos e (commit (rs.foldl commit algos) (gpuId.toNat, mscclAlgo))

/-- All entries before the one with the error are installed, and of that one, if it names a switch,
the rules before the error. -/
inductive SwitchesStopped (t : AlgoTopology) (document : Option (Option Json)) (s : Switches)
    (e : AlgoParseError) : Switches → Prop
  | before (h : readSwitches document = .error e) : SwitchesStopped t document s e s
  | switchId {members done : List (String × Json)} {entry : String × Json}
      {rest : List (String × Json)} {rs : List (Nat × List (Nat × Nat))}
      (hread : readSwitches document = .ok members) (hmembers : members = done ++ entry :: rest)
      (hdone : List.Forall₂ (fun entry r => t.readEntry entry = .ok r) done rs)
      (hentry : t.readSwitch entry.1 = .error e) :
      SwitchesStopped t document s e (rs.foldl (fun s r => s.modify r.1 (·.install r.2)) s)
  | inside {members done : List (String × Json)} {entry : String × Json}
      {rest : List (String × Json)} {rs : List (Nat × List (Nat × Nat))} {sw : Nat}
      {flows : List (String × Json)} {flow : String × Json} {later : List (String × Json)}
      {rules : List (Nat × Nat)}
      (hread : readSwitches document = .ok members) (hmembers : members = done ++ entry :: rest)
      (hdone : List.Forall₂ (fun entry r => t.readEntry entry = .ok r) done rs)
      (hentry : t.readSwitch entry.1 = .ok sw) (hflows : entry.2.items = flows ++ flow :: later)
      (hrules : List.Forall₂ (fun flow rule => t.readFlow sw flow = .ok rule) flows rules)
      (hflow : t.readFlow sw flow = .error e) :
      SwitchesStopped t document s e
        (Switches.modify (rs.foldl (fun s r => s.modify r.1 (·.install r.2)) s) sw (·.install rules))

/-! ### Algorithms -/

section

variable {nRanks : Nat} {document : Option (Option XmlNode)} {algos : Nat → MscclAlgorithm}

theorem algosStopped {e : AlgoParseError}
    (h : (parseAlgoXmlInPlace nRanks document algos).error = some e) :
    AlgosStopped nRanks document algos e (parseAlgoXmlInPlace nRanks document algos).left := by
  rw [parseAlgoXmlInPlace] at h ⊢
  cases hread : readAlgo nRanks document with
  | error e' =>
      simp only [hread] at h ⊢
      cases h
      exact .before hread
  | ok algo =>
      simp only [hread] at h ⊢
      obtain ⟨done, gpu, rest, hgpus, hdone, herror, hleft⟩ := Outcome.loop_error h
      obtain ⟨rs, hparsed, hcommitted⟩ := Outcome.loop_read (algo.parse nRanks) commit
        (fun algos gpu r hr => algo.parseInPlace_ok hr)
        (fun algos gpu e he => (algo.parseInPlace_error algos he).1) hdone
      rw [hleft, hcommitted]
      rw [hcommitted] at herror
      cases hparse : algo.parse nRanks gpu with
      | ok r =>
          rw [algo.parseInPlace_ok hparse] at herror
          cases herror
      | error e' =>
          obtain ⟨herror', hcases⟩ := algo.parseInPlace_error (rs.foldl commit algos) hparse
          rw [herror'] at herror
          cases herror
          rcases hcases with ⟨hgpu, hsame⟩ | ⟨gpuId, chunks, mscclAlgo, hgpu, hinvalid, hwritten⟩
          · rw [hsame]
            exact .attributes hread hgpus hparsed hgpu
          · rw [hwritten]
            exact .inside hread hgpus hparsed hgpu hparse hinvalid

/-- The parser of the whole document, read first and written afterwards. -/
theorem parseAlgoXml_eq : parseAlgoXml nRanks document = readAlgo nRanks document >>= fun algo =>
    algo.gpus.foldlM (fun algos gpu => do
      let r ← algo.parse nRanks gpu
      return Function.update algos r.1 (some r.2)) fun _ => none := by
  cases document with
  | none => rfl
  | some document =>
      cases document with
      | none => rfl
      | some root =>
          simp only [parseAlgoXml, readAlgo, bind_assoc, pure_bind]
          rfl

theorem loop_parseInPlace_ok (algos : Nat → MscclAlgorithm) {algo : AlgoElement} {gpus : List XmlNode}
    {m m' : Nat → Option MscclAlgorithm}
    (h : gpus.foldlM (fun algos gpu => do
      let r ← algo.parse nRanks gpu
      return Function.update algos r.1 (some r.2)) m = .ok m') :
    Outcome.loop (algo.parseInPlace nRanks) (fun gpuId => (m gpuId).getD (algos gpuId)) gpus =
      ⟨fun gpuId => (m' gpuId).getD (algos gpuId), none⟩ := by
  induction gpus generalizing m with
  | nil =>
      cases h
      rfl
  | cons gpu gpus ih =>
      rw [List.foldlM_cons] at h
      cases hgpu : algo.parse nRanks gpu with
      | error e =>
          rw [hgpu] at h
          cases h
      | ok r =>
          rw [hgpu] at h
          have hcommit : commit (fun gpuId => (m gpuId).getD (algos gpuId)) r =
              fun gpuId => (Function.update m r.1 (some r.2) gpuId).getD (algos gpuId) := by
            funext gpuId
            by_cases hid : gpuId = r.1
            · simp [commit, hid]
            · simp [commit, hid]
          simp only [Outcome.loop, algo.parseInPlace_ok hgpu, hcommit]
          exact ih h

/-- A document without an error sets the algorithms that it gives. -/
theorem parseAlgoXmlInPlace_ok {parsed : Nat → Option MscclAlgorithm}
    (h : parseAlgoXml nRanks document = .ok parsed) :
    parseAlgoXmlInPlace nRanks document algos =
      ⟨fun gpuId => (parsed gpuId).getD (algos gpuId), none⟩ := by
  rw [parseAlgoXml_eq] at h
  rw [parseAlgoXmlInPlace]
  cases hread : readAlgo nRanks document with
  | error e =>
      rw [hread] at h
      cases h
  | ok algo =>
      rw [hread] at h
      exact loop_parseInPlace_ok algos h

end

/-! ### Switches -/

section

variable {t : AlgoTopology} {s : Switches} {sw : Nat}

@[simp] theorem Switches.modify_modify {f g : FlowForwarding → FlowForwarding} :
    (s.modify sw f).modify sw g = s.modify sw fun x => g (f x) := by
  simp [Switches.modify]

theorem FlowForwarding.install_concat {rules : List (Nat × Nat)} {rule : Nat × Nat}
    (f : FlowForwarding) :
    f.install (rules ++ [rule]) = (f.install rules).addFlowForwardingRule rule := by
  rw [install, install, List.foldl_append]
  rfl

theorem foldl_addFlowForwardingRule (rules : List (Nat × Nat)) :
    rules.foldl (fun s rule => s.modify sw (·.addFlowForwardingRule rule)) (s.modify sw .enable) =
      s.modify sw (·.install rules) := by
  induction rules using List.reverseRecOn with
  | nil => rfl
  | append_singleton rules rule ih =>
      rw [List.foldl_append, ih]
      simp [FlowForwarding.install_concat]

theorem AlgoTopology.loop_addFlow_ok {flows : List (String × Json)} {rules : List (Nat × Nat)}
    (h : flows.mapM (t.readFlow sw) = .ok rules) :
    Outcome.loop (t.addFlow sw) s flows =
      ⟨rules.foldl (fun s rule => s.modify sw (·.addFlowForwardingRule rule)) s, none⟩ := by
  induction flows generalizing s rules with
  | nil =>
      cases h
      rfl
  | cons flow flows ih =>
      rw [List.mapM_cons] at h
      cases hflow : t.readFlow sw flow with
      | error e =>
          rw [hflow] at h
          cases h
      | ok rule =>
          cases hflows : flows.mapM (t.readFlow sw) with
          | error e =>
              simp only [hflow, hflows, bind, Except.bind] at h
              cases h
          | ok rules' =>
              simp only [hflow, hflows, bind, Except.bind] at h
              cases h
              simp only [Outcome.loop, addFlow, hflow]
              exact ih hflows

theorem AlgoTopology.loop_addFlow_error {flows : List (String × Json)} {e : AlgoParseError}
    (h : flows.mapM (t.readFlow sw) = .error e) :
    (Outcome.loop (t.addFlow sw) s flows).error = some e := by
  induction flows generalizing s with
  | nil => cases h
  | cons flow flows ih =>
      rw [List.mapM_cons] at h
      cases hflow : t.readFlow sw flow with
      | error e' =>
          rw [hflow] at h
          cases h
          simp only [Outcome.loop, addFlow, hflow]
      | ok rule =>
          simp only [Outcome.loop, addFlow, hflow]
          apply ih
          cases hflows : flows.mapM (t.readFlow sw) with
          | ok rules' =>
              simp only [hflow, hflows, bind, Except.bind] at h
              cases h
          | error e' =>
              simp only [hflow, hflows, bind, Except.bind] at h
              cases h
              rfl

theorem AlgoTopology.addSwitch_ok {entry : String × Json} {r : Nat × List (Nat × Nat)}
    (h : t.readEntry entry = .ok r) :
    t.addSwitch s entry = ⟨s.modify r.1 (·.install r.2), none⟩ := by
  rw [readEntry] at h
  rw [addSwitch]
  cases hsw : t.readSwitch entry.1 with
  | error e =>
      rw [hsw] at h
      cases h
  | ok sw =>
      rw [hsw] at h
      cases hrules : entry.2.items.mapM (t.readFlow sw) with
      | error e =>
          simp only [hrules, bind, Except.bind] at h
          cases h
      | ok rules =>
          simp only [hrules, bind, Except.bind] at h
          cases h
          simp only [loop_addFlow_ok hrules, foldl_addFlowForwardingRule]

theorem AlgoTopology.addSwitch_error {entry : String × Json} {e : AlgoParseError}
    (h : t.readEntry entry = .error e) : (t.addSwitch s entry).error = some e := by
  rw [readEntry] at h
  rw [addSwitch]
  cases hsw : t.readSwitch entry.1 with
  | error e' =>
      rw [hsw] at h
      cases h
      rfl
  | ok sw =>
      rw [hsw] at h
      cases hrules : entry.2.items.mapM (t.readFlow sw) with
      | error e' =>
          simp only [hrules, bind, Except.bind] at h
          cases h
          exact loop_addFlow_error hrules
      | ok rules =>
          simp only [hrules, bind, Except.bind] at h
          cases h

theorem switchesStopped {document : Option (Option Json)} {e : AlgoParseError}
    (h : (t.parseSwitchJson document s).error = some e) :
    SwitchesStopped t document s e (t.parseSwitchJson document s).left := by
  rw [AlgoTopology.parseSwitchJson] at h ⊢
  cases hread : readSwitches document with
  | error e' =>
      simp only [hread] at h ⊢
      cases h
      exact .before hread
  | ok members =>
      simp only [hread] at h ⊢
      obtain ⟨done, entry, rest, hmembers, hdone, herror, hleft⟩ := Outcome.loop_error h
      obtain ⟨rs, hreads, hinstalled⟩ := Outcome.loop_read t.readEntry
        (fun s r => s.modify r.1 (·.install r.2))
        (fun s entry r hr => AlgoTopology.addSwitch_ok hr)
        (fun s entry e he => AlgoTopology.addSwitch_error he) hdone
      rw [hleft, hinstalled]
      rw [hinstalled, AlgoTopology.addSwitch] at herror
      rw [AlgoTopology.addSwitch]
      cases hentry : t.readSwitch entry.1 with
      | error e' =>
          simp only [hentry] at herror ⊢
          cases herror
          exact .switchId hread hmembers hreads hentry
      | ok sw =>
          simp only [hentry] at herror ⊢
          obtain ⟨flows, flow, later, hflows, hfine, hbad, hend⟩ := Outcome.loop_error herror
          obtain ⟨rules, hrules, hadded⟩ := Outcome.loop_read (t.readFlow sw)
            (fun s rule => s.modify sw (·.addFlowForwardingRule rule))
            (fun s flow rule hr => by rw [AlgoTopology.addFlow, hr])
            (fun s flow e he => by rw [AlgoTopology.addFlow, he]) hfine
          rw [hend, hadded, foldl_addFlowForwardingRule]
          rw [hadded] at hbad
          cases hflow : t.readFlow sw flow with
          | ok rule =>
              rw [AlgoTopology.addFlow, hflow] at hbad
              cases hbad
          | error e' =>
              rw [AlgoTopology.addFlow, hflow] at hbad ⊢
              cases hbad
              exact .inside hread hmembers hreads hentry hflows hrules hflow

end

/-- An error of either parser stops it between two elements or inside one, and nothing behind that has
been read or written. -/
theorem failed_parse_stopped :
    (∀ (nRanks : Nat) (document : Option (Option XmlNode)) (algos : Nat → MscclAlgorithm)
      (e : AlgoParseError), (parseAlgoXmlInPlace nRanks document algos).error = some e →
        AlgosStopped nRanks document algos e (parseAlgoXmlInPlace nRanks document algos).left) ∧
    ∀ (t : AlgoTopology) (document : Option (Option Json)) (s : Switches) (e : AlgoParseError),
      (t.parseSwitchJson document s).error = some e →
        SwitchesStopped t document s e (t.parseSwitchJson document s).left :=
  ⟨fun _ _ _ _ h => algosStopped h, fun _ _ _ _ h => switchesStopped h⟩

/-- Two GPUs, of which the second has no sizes for its buffers. -/
def secondGpuIncomplete : XmlNode :=
  .element "algo" [("name", "pair"), ("ngpus", "2"), ("nchannels", "1"), ("nchunksperloop", "1"),
    ("coll", "custom")]
    [.element "gpu" [("id", "0"), ("i_chunks", "1"), ("o_chunks", "1"), ("s_chunks", "0")] [],
      .element "gpu" [("id", "1")] []]

/-- A switch with the id of no switch, behind one with a rule. -/
def secondSwitchMissing : Json :=
  .object [("switches", .object [
    ("0", .object [("7", .object [("next_hop", .number 0), ("next_hop_type", .string "gpu")])]),
    ("1", .object [])])]

/-- One GPU at one switch. -/
def oneSwitch : AlgoTopology where
  gpuNodes := [0]
  switchNodes := [1]
  isSwitchNode sw := sw = 1
  resolveOutPort _ target := if target = 0 then some 1 else none

def emptyAlgorithm : MscclAlgorithm :=
  AlgoElement.cleared ⟨0, 0, 0, .custom, []⟩ 0

theorem secondGpuIncomplete_stopped :
    ∃ e e', AlgosStopped 2 (some (some secondGpuIncomplete)) (fun _ => emptyAlgorithm) e
        (parseAlgoXmlInPlace 2 (some (some secondGpuIncomplete)) fun _ => emptyAlgorithm).left ∧
      SwitchesStopped oneSwitch (some (some secondSwitchMissing)) (fun _ => ⟨false, fun _ => none⟩) e'
        (oneSwitch.parseSwitchJson (some (some secondSwitchMissing)) fun _ =>
          ⟨false, fun _ => none⟩).left := by
  refine ⟨.xmlParseError, .invalidUseError, failed_parse_stopped.1 _ _ _ _ ?_,
    failed_parse_stopped.2 _ _ _ _ ?_⟩
  · decide +kernel
  · decide +kernel

theorem not_parse_atomic :
    (¬ ∀ (nRanks : Nat) (document : Option (Option XmlNode)) (algos : Nat → MscclAlgorithm),
      (parseAlgoXmlInPlace nRanks document algos).error ≠ none →
        (parseAlgoXmlInPlace nRanks document algos).left = algos) ∧
    ¬ ∀ (t : AlgoTopology) (document : Option (Option Json)) (s : Switches),
      (t.parseSwitchJson document s).error ≠ none → (t.parseSwitchJson document s).left = s := by
  constructor
  · intro hall
    have hsame := hall 2 (some (some secondGpuIncomplete)) (fun _ => emptyAlgorithm)
      (by decide +kernel)
    have hvalid : ((parseAlgoXmlInPlace 2 (some (some secondGpuIncomplete))
        fun _ => emptyAlgorithm).left 0).isValid = true := by
      decide +kernel
    rw [hsame] at hvalid
    cases hvalid
  · intro hall
    have hsame := hall oneSwitch (some (some secondSwitchMissing)) (fun _ => ⟨false, fun _ => none⟩)
      (by decide +kernel)
    have henabled : ((oneSwitch.parseSwitchJson (some (some secondSwitchMissing)) fun _ =>
        ⟨false, fun _ => none⟩).left 1).customFlowForwarding = true := by
      decide +kernel
    rw [hsame] at henabled
    cases henabled

end CollectiveSim.Msccl
