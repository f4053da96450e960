import Mathlib
import CollectiveSim.Fabric.Routing

/-!
# NIC selection

`RdmaHw` looks for the NIC of a queue pair in the nvswitch table when source and destination are in
one server or that table has the destination, and in the ordinary table otherwise.
-/

namespace CollectiveSim.Fabric

/-- A table lookup: `none` for an address without an entry. -/
def lookup (table : List Nat) : Option (List Nat) := if table = [] then none else some table

/-- `v[hash % v.size()]`, or `none` for the failed assertion "at least one NIC is alive". -/
def pickNic (v : List Nat) (hash : Nat) : Option Nat :=
  if 0 < v.length then v[hash % v.length]? else none

/-- `RdmaHw::GetNicIdxOfQp` with the two tables already looked up at the destination address. -/
def getNicIdxOfQp (gpusPerServer : Nat) (rtTableNxthopNvswitch rtTable : Option (List Nat))
    (src dest hash : Nat) : Option Nat :=
  if src / gpusPerServer = dest / gpusPerServer ∨ rtTableNxthopNvswitch.isSome then
    pickNic (rtTableNxthopNvswitch.getD []) hash
  else pickNic (rtTable.getD []) hash

/-- `RdmaHw::GetNicIdxOfRxQp`. -/
def getNicIdxOfRxQp (rtTableNxthopNvswitch rtTable : Option (List Nat)) (hash : Nat) :
    Option Nat :=
  match rtTable, rtTableNxthopNvswitch with
  | some v, _ => pickNic v hash
  | none, some v => pickNic v hash
  | none, none => none

theorem pickNic_mem {v : List Nat} (hv : v ≠ []) (hash : Nat) : ∃ i ∈ v, pickNic v hash = some i := by
  have hlen := List.length_pos_iff.mpr hv
  have hidx : hash % v.length < v.length := Nat.mod_lt _ hlen
  refine ⟨v[hash % v.length], List.getElem_mem _, ?_⟩
  rw [pickNic, if_pos hlen, List.getElem?_eq_getElem hidx]

namespace Topology

variable (t : Topology)

/-- The `GPUsPerServer` attribute after `Build`: the GPUs on the first nvswitch, else its default. -/
def gpusPerServer : Nat :=
  match t.nvswitches with
  | [] => 1
  | nvswitch :: _ =>
      let attachedGpus := ((t.adj nvswitch).filter fun edge => edge.peer ∈ t.gpus).length
      if 0 < attachedGpus then attachedGpus else 1

/-- The NIC of the queue pair from GPU `s` to the peer at position `peer`, as `SetupRdmaSendPeer`
creates it: `m_src` is the node id of the sender and `m_dest` the number of the peer. -/
def nicIdxOfQp (rdmaMtu s peer hash : Nat) : Option Nat :=
  getNicIdxOfQp t.gpusPerServer (lookup (t.rtTableNxthopNvswitch rdmaMtu s (gpuIp peer)))
    (lookup (t.rtTable rdmaMtu s (gpuIp peer))) s peer hash

/-- The NIC for the ACKs that GPU `d` sends back to GPU `s`. -/
def nicIdxOfRxQp (rdmaMtu d s hash : Nat) : Option Nat :=
  getNicIdxOfRxQp (lookup (t.rtTableNxthopNvswitch rdmaMtu d (t.ipOf s)))
    (lookup (t.rtTable rdmaMtu d (t.ipOf s))) hash

/-- For data and for ACKs an installed interface is found, whatever the hash of the ports is. -/
def SelectsNic (rdmaMtu s d : Nat) : Prop :=
  ∀ hash, (∃ i ∈ t.outDevs rdmaMtu s (t.ipOf d),
      t.nicIdxOfQp rdmaMtu s (t.gpus.idxOf d) hash = some i) ∧
    ∃ i ∈ t.outDevs rdmaMtu d (t.ipOf s), t.nicIdxOfRxQp rdmaMtu d s hash = some i

/-- Some shortest path from `s` to a GPU with the address of `d` starts with an nvswitch. -/
def StartsWithNvswitch (s d : Nat) : Prop :=
  ∃ d' ∈ t.gpus, t.ipOf d' = t.ipOf d ∧ t.graph.Reachable d' s ∧
    ∃ w ∈ t.nvswitches, t.graph.Adj s w ∧ t.graph.dist d' w + 1 = t.graph.dist d' s

variable {t}

theorem mem_rtTableNxthopNvswitch (rdmaMtu : Nat) {s d : Nat} :
    t.rtTableNxthopNvswitch rdmaMtu s (t.ipOf d) ≠ [] ↔ t.StartsWithNvswitch s d := by
  constructor
  · intro h
    obtain ⟨i, hi⟩ := List.exists_mem_of_ne_nil _ h
    obtain ⟨e, he, rfl⟩ := List.mem_map.mp hi
    obtain ⟨he, hnv⟩ := List.mem_filter.mp he
    obtain ⟨d', hd', hip, hadj, hreach, hdist⟩ := (mem_tableEntries rdmaMtu e).mp he
    refine ⟨d', hd', hip, hreach, e.peer, of_decide_eq_true hnv, ?_, hdist⟩
    refine graph_adj.mpr ⟨?_, e, hadj, rfl⟩
    intro heq
    rw [← heq] at hdist
    omega
  · rintro ⟨d', hd', hip, hreach, w, hw, hadj, hdist⟩
    obtain ⟨-, e, he, rfl⟩ := graph_adj.mp hadj
    have hentry : e ∈ t.tableEntries rdmaMtu s (t.ipOf d) :=
      (mem_tableEntries rdmaMtu e).mpr ⟨d', hd', hip, he, hreach, hdist⟩
    exact List.ne_nil_of_mem (List.mem_map.mpr
      ⟨e, List.mem_filter.mpr ⟨hentry, decide_eq_true hw⟩, rfl⟩)

theorem outDevs_ne_nil (rdmaMtu : Nat) {s d : Nat} (hd : d ∈ t.gpus) (hne : s ≠ d)
    (hreach : t.graph.Reachable s d) : t.outDevs rdmaMtu s (t.ipOf d) ≠ [] := by
  obtain ⟨w, hadj, -, hdist⟩ := exists_closer hreach.symm hne.symm
  obtain ⟨i, hi, -⟩ := (t.outDevs_peer rdmaMtu).mpr ⟨d, hd, rfl, hreach.symm, hadj, hdist⟩
  exact List.ne_nil_of_mem hi

theorem outDevs_of_gpu (rdmaMtu : Nat) {s ip : Nat} (hs : s ∈ t.gpus) : t.outDevs rdmaMtu s ip =
    t.rtTableNxthopNvswitch rdmaMtu s ip ++ t.rtTable rdmaMtu s ip := by
  rw [outDevs, nodeType, if_pos hs, if_pos rfl]

theorem nicIdxOfRxQp_mem (rdmaMtu : Nat) {s d : Nat} (hs : s ∈ t.gpus) (hd : d ∈ t.gpus)
    (hne : s ≠ d) (hreach : t.graph.Reachable s d) (hash : Nat) :
    ∃ i ∈ t.outDevs rdmaMtu d (t.ipOf s), t.nicIdxOfRxQp rdmaMtu d s hash = some i := by
  have hany := outDevs_ne_nil rdmaMtu hs hne.symm hreach.symm
  rw [outDevs_of_gpu rdmaMtu hd] at hany ⊢
  rw [nicIdxOfRxQp]
  by_cases hrt : t.rtTable rdmaMtu d (t.ipOf s) = []
  · rw [hrt, List.append_nil] at hany ⊢
    rw [lookup, lookup, if_pos rfl, if_neg hany]
    exact pickNic_mem hany hash
  · rw [lookup, lookup, if_neg hrt]
    obtain ⟨i, hi, hpick⟩ := pickNic_mem hrt hash
    exact ⟨i, List.mem_append_right _ hi, hpick⟩

theorem nicIdxOfQp_mem_iff (rdmaMtu : Nat) {s d : Nat} (hs : s ∈ t.gpus) (hd : d ∈ t.gpus)
    (hne : s ≠ d) (hreach : t.graph.Reachable s d) (hash : Nat) :
    (∃ i ∈ t.outDevs rdmaMtu s (t.ipOf d),
        t.nicIdxOfQp rdmaMtu s (t.gpus.idxOf d) hash = some i) ↔
      s / t.gpusPerServer ≠ t.gpus.idxOf d / t.gpusPerServer ∨
        t.rtTableNxthopNvswitch rdmaMtu s (t.ipOf d) ≠ [] := by
  have hany := outDevs_ne_nil rdmaMtu hd hne hreach
  rw [outDevs_of_gpu rdmaMtu hs] at hany ⊢
  have hip : gpuIp (t.gpus.idxOf d) = t.ipOf d := rfl
  rw [nicIdxOfQp, getNicIdxOfQp, hip]
  by_cases hnv : t.rtTableNxthopNvswitch rdmaMtu s (t.ipOf d) = []
  · rw [hnv, List.nil_append] at hany ⊢
    have hnone : lookup [] = none := rfl
    rw [hnone, lookup, if_neg hany]
    by_cases hserver : s / t.gpusPerServer = t.gpus.idxOf d / t.gpusPerServer
    · simp [hserver, pickNic]
    · rw [if_neg (by simp [hserver])]
      exact iff_of_true (pickNic_mem hany hash) (.inl hserver)
  · have hsome : lookup (t.rtTableNxthopNvswitch rdmaMtu s (t.ipOf d)) =
        some (t.rtTableNxthopNvswitch rdmaMtu s (t.ipOf d)) := if_neg hnv
    rw [hsome, if_pos (.inr rfl)]
    obtain ⟨i, hi, hpick⟩ := pickNic_mem hnv hash
    exact iff_of_true ⟨i, List.mem_append_left _ hi, hpick⟩ (.inr hnv)

/-- A connected pair of GPUs finds its NICs exactly when the server numbers of the two differ or a
shortest path starts with an nvswitch. -/
theorem selectsNic_iff (t : Topology) (rdmaMtu s d : Nat) (hs : s ∈ t.gpus) (hd : d ∈ t.gpus)
    (hne : s ≠ d) (hreach : t.graph.Reachable s d) :
    t.SelectsNic rdmaMtu s d ↔
      s / t.gpusPerServer ≠ t.gpus.idxOf d / t.gpusPerServer ∨ t.StartsWithNvswitch s d := by
  rw [← mem_rtTableNxthopNvswitch rdmaMtu]
  constructor
  · intro h
    exact (nicIdxOfQp_mem_iff rdmaMtu hs hd hne hreach 0).mp (h 0).1
  · intro h hash
    exact ⟨(nicIdxOfQp_mem_iff rdmaMtu hs hd hne hreach hash).mpr h,
      nicIdxOfRxQp_mem rdmaMtu hs hd hne hreach hash⟩

/-- Two GPUs on an nvswitch, two on a switch, and a link between the two. -/
def mixedServers : Topology :=
  ofLinks [0, 1, 2, 3] [4] [5] [(0, 5), (1, 5), (2, 4), (3, 4), (5, 4)] (by decide) (by decide)

theorem mixedServers_reachable {u v w : Nat} (huv : u ≠ v ∧ ∃ e ∈ mixedServers.adj u, e.peer = v)
    (hvw : v ≠ w ∧ ∃ e ∈ mixedServers.adj v, e.peer = w) : mixedServers.graph.Reachable u w :=
  (graph_adj.mpr huv).reachable.trans (graph_adj.mpr hvw).reachable

/-- GPU 0 and GPU 1 find their NICs through the nvswitch. -/
theorem mixedServers_selectsNic :
    0 ∈ mixedServers.gpus ∧ 1 ∈ mixedServers.gpus ∧ mixedServers.graph.Reachable 0 1 ∧
      mixedServers.SelectsNic 1000 0 1 := by
  have hreach : mixedServers.graph.Reachable 0 1 :=
    mixedServers_reachable (v := 5) (by decide) (by decide)
  refine ⟨by decide, by decide, hreach, ?_⟩
  refine (selectsNic_iff mixedServers 1000 0 1 (by decide) (by decide) (by decide) hreach).mpr
    (.inr ((mem_rtTableNxthopNvswitch 1000).mp (List.isEmpty_eq_false_iff.mp ?_)))
  decide +kernel

/-- GPU 2 and GPU 3 have the server number 1 in common and no nvswitch between them: the assertion
fails. -/
theorem mixedServers_not_selectsNic :
    mixedServers.gpusPerServer = 2 ∧ mixedServers.graph.Reachable 2 3 ∧
      mixedServers.outDevs 1000 2 (mixedServers.ipOf 3) = [0] ∧
      mixedServers.nicIdxOfQp 1000 2 3 0 = none ∧ ¬ mixedServers.SelectsNic 1000 2 3 := by
  have hreach : mixedServers.graph.Reachable 2 3 :=
    mixedServers_reachable (v := 4) (by decide) (by decide)
  have hnone : mixedServers.nicIdxOfQp 1000 2 3 0 = none := by decide +kernel
  refine ⟨by decide +kernel, hreach, by decide +kernel, hnone, ?_⟩
  intro h
  obtain ⟨i, -, hi⟩ := (h 0).1
  have hidx : mixedServers.gpus.idxOf 3 = 3 := by decide +kernel
  rw [hidx, hnone] at hi
  cases hi

end Topology

end CollectiveSim.Fabric
