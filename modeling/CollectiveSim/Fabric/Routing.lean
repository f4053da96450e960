import Mathlib
import CollectiveSim.Framework.Bfs
import CollectiveSim.Fabric.Address

/-!
# Routing tables of the fabric

The qbb topology that `RdmaFabricHelper::Build` discovers, the breadth-first search from each
destination GPU, and the equal-cost next hops it installs.
-/

namespace CollectiveSim.Fabric

open Framework

/-- A device on a `QbbChannel`, with the node at the other end of its channel. -/
structure QbbDevice where
  peer : Nat
  delay : Nat
  rateBps : Nat
  deriving DecidableEq

structure QbbEdge where
  peer : Nat
  ifIndex : Nat
  delay : Nat
  rateBps : Nat
  deriving DecidableEq

/-- The nodes given to `Build` by their ids, and the devices of each node, `none` for a device that
is not on a `QbbChannel`. -/
structure Topology where
  gpus : List Nat
  switches : List Nat
  nvswitches : List Nat
  devices : Nat → List (Option QbbDevice)
  nodup : (gpus ++ switches ++ nvswitches).Nodup
  peer_mem : ∀ n q, some q ∈ devices n → q.peer ∈ gpus ++ switches ++ nvswitches
  symm : ∀ n q, some q ∈ devices n → ∃ q', some q' ∈ devices q.peer ∧ q'.peer = n

structure PathMetrics where
  hops : Nat
  delay : Nat
  txDelay : ℚ
  bottleneckBps : Nat
  deriving DecidableEq

/-- What `BfsFromDestination` records for the peer of an edge. -/
def PathMetrics.extend (rdmaMtu : Nat) (m : PathMetrics) (edge : QbbEdge) : PathMetrics where
  hops := m.hops + 1
  delay := m.delay + edge.delay
  txDelay := m.txDelay + rdmaMtu * 8 / edge.rateBps
  bottleneckBps := min m.bottleneckBps edge.rateBps

/-- The metrics of the destination itself. -/
def PathMetrics.start : PathMetrics := ⟨0, 0, 0, 2 ^ 64 - 1⟩

theorem PathMetrics.extend_hops (rdmaMtu : Nat) (m : PathMetrics) (edge : QbbEdge) :
    (m.extend rdmaMtu edge).hops = m.hops + 1 :=
  rfl

namespace Topology

variable (t : Topology)

/-- `all` in `DiscoverAdjacency`. -/
def nodes : List Nat := t.gpus ++ t.switches ++ t.nvswitches

/-- `m_adj`: the edges of a node in the order of its devices. -/
def adj (n : Nat) : List QbbEdge :=
  (t.devices n).zipIdx.filterMap fun (device, i) =>
    device.map fun q => ⟨q.peer, i, q.delay, q.rateBps⟩

/-- `Node::GetNodeType`: 0 for a GPU, 1 for a switch, 2 for an nvswitch. -/
def nodeType (n : Nat) : Nat :=
  if n ∈ t.gpus then 0 else if n ∈ t.switches then 1 else 2

/-- The address of a GPU, by its position in `gpus`. -/
def ipOf (gpu : Nat) : Nat := gpuIp (t.gpus.idxOf gpu)

def bfsFromDestination (rdmaMtu dst : Nat) : Nat → Option PathMetrics :=
  Bfs.search t.adj QbbEdge.peer (PathMetrics.extend rdmaMtu) t.nodes.length dst .start

/-- The same search with at most `fuel` nodes taken off the queue; `none` when more are left. -/
def bfsWithin (rdmaMtu dst fuel : Nat) : Option (Nat → Option PathMetrics) :=
  Bfs.run t.adj QbbEdge.peer (PathMetrics.extend rdmaMtu) fuel [dst]
    (Function.update (fun _ => none) dst (some .start))

/-- The edges of `n` to the peers one hop closer to `dst`. -/
def nextHops (rdmaMtu dst n : Nat) : List QbbEdge :=
  if n = dst then []
  else match t.bfsFromDestination rdmaMtu dst n with
    | none => []
    | some m => (t.adj n).filter fun edge =>
        match t.bfsFromDestination rdmaMtu dst edge.peer with
        | none => false
        | some peer => peer.hops == m.hops - 1

/-- Whether `Build` pushes the address of `d` on GPU `s`. -/
def registers (rdmaMtu s d : Nat) : Prop := s ∈ t.gpus ∧ d ∈ t.gpus ∧ t.nextHops rdmaMtu d s ≠ []

/-- All table entries of `n` for an address, in the order in which the loop over the destinations
adds them. -/
def tableEntries (rdmaMtu n ip : Nat) : List QbbEdge :=
  t.gpus.flatMap fun dst => if t.ipOf dst = ip then t.nextHops rdmaMtu dst n else []

/-- `m_rtTable_nxthop_nvswitch` of a GPU. -/
def rtTableNxthopNvswitch (rdmaMtu n ip : Nat) : List Nat :=
  ((t.tableEntries rdmaMtu n ip).filter fun edge => edge.peer ∈ t.nvswitches).map QbbEdge.ifIndex

/-- `m_rtTable` of a GPU, which leaves the nvswitch hops to the other table, and of a switch. -/
def rtTable (rdmaMtu n ip : Nat) : List Nat :=
  if t.nodeType n = 0 then
    ((t.tableEntries rdmaMtu n ip).filter fun edge => edge.peer ∉ t.nvswitches).map QbbEdge.ifIndex
  else (t.tableEntries rdmaMtu n ip).map QbbEdge.ifIndex

/-- Every interface through which `n` may send a packet for `ip`. -/
def outDevs (rdmaMtu n ip : Nat) : List Nat :=
  if t.nodeType n = 0 then t.rtTableNxthopNvswitch rdmaMtu n ip ++ t.rtTable rdmaMtu n ip
  else t.rtTable rdmaMtu n ip

/-- The node at the other end of an interface. -/
def peerAt (n ifIndex : Nat) : Option Nat :=
  ((t.devices n)[ifIndex]?.join).map QbbDevice.peer

/-- The undirected graph of the qbb links. -/
def graph : SimpleGraph Nat := Bfs.linkGraph t.adj QbbEdge.peer

variable {t}

theorem mem_adj {n : Nat} {e : QbbEdge} : e ∈ t.adj n ↔
    (t.devices n)[e.ifIndex]? = some (some ⟨e.peer, e.delay, e.rateBps⟩) := by
  obtain ⟨peer, ifIndex, delay, rateBps⟩ := e
  rw [adj, List.mem_filterMap]
  constructor
  · rintro ⟨⟨device, i⟩, hmem, he⟩
    rw [Option.map_eq_some_iff] at he
    obtain ⟨q, rfl, hq⟩ := he
    cases hq
    exact List.mem_zipIdx_iff_getElem?.mp hmem
  · intro h
    exact ⟨(some ⟨peer, delay, rateBps⟩, ifIndex), List.mem_zipIdx_iff_getElem?.mpr h, rfl⟩

theorem peerAt_of_mem_adj {n : Nat} {e : QbbEdge} (h : e ∈ t.adj n) :
    t.peerAt n e.ifIndex = some e.peer := by
  rw [peerAt, mem_adj.mp h]
  rfl

theorem adj_peer_mem {n : Nat} {e : QbbEdge} (h : e ∈ t.adj n) : e.peer ∈ t.nodes :=
  t.peer_mem n _ (List.mem_of_getElem? (mem_adj.mp h))

theorem adj_symm (n : Nat) (e : QbbEdge) (h : e ∈ t.adj n) : ∃ e' ∈ t.adj e.peer, e'.peer = n := by
  obtain ⟨q, hq, hpeer⟩ := t.symm n _ (List.mem_of_getElem? (mem_adj.mp h))
  obtain ⟨i, hi⟩ := List.mem_iff_getElem?.mp hq
  exact ⟨⟨q.peer, i, q.delay, q.rateBps⟩, mem_adj.mpr hi, hpeer⟩

theorem graph_adj {u v : Nat} : t.graph.Adj u v ↔ u ≠ v ∧ ∃ e ∈ t.adj u, e.peer = v := by
  rw [graph, Bfs.linkGraph_adj]
  refine and_congr_right fun _ => ⟨?_, .inl⟩
  rintro (h | ⟨e, he, rfl⟩)
  · exact h
  · exact adj_symm v e he

theorem adj_eq_nil {n : Nat} (h : n ∉ t.nodes) : t.adj n = [] := by
  apply List.eq_nil_iff_forall_not_mem.mpr
  intro e he
  obtain ⟨e', he', hpeer⟩ := adj_symm n e he
  exact h (hpeer ▸ adj_peer_mem he')

/-- The search ends, and what it returns is breadth first. -/
theorem bfsWithin_eq (rdmaMtu dst : Nat) {fuel : Nat} (hfuel : t.nodes.length < fuel) :
    t.bfsWithin rdmaMtu dst fuel = some (t.bfsFromDestination rdmaMtu dst) ∧
      Bfs.IsBfs t.adj QbbEdge.peer (PathMetrics.extend rdmaMtu) PathMetrics.hops dst .start
        (t.bfsFromDestination rdmaMtu dst) := by
  apply Bfs.search_spec (PathMetrics.extend_hops rdmaMtu) t.nodes.toFinset _ _
    (List.toFinset_card_le _) hfuel
  · intro u e he
    exact List.mem_toFinset.mpr (adj_peer_mem he)
  · rw [List.mem_toFinset]
    by_cases hdst : dst ∈ t.nodes
    · exact .inl hdst
    · exact .inr (adj_eq_nil hdst)

theorem bfsFromDestination_isBfs (rdmaMtu dst : Nat) :
    Bfs.IsBfs t.adj QbbEdge.peer (PathMetrics.extend rdmaMtu) PathMetrics.hops dst .start
      (t.bfsFromDestination rdmaMtu dst) :=
  (t.bfsWithin_eq rdmaMtu dst (Nat.lt_succ_self _)).2

/-- The search finds exactly the nodes connected to the destination, at their distance. -/
theorem bfsFromDestination_hops (rdmaMtu : Nat) {dst n : Nat} (k : Nat) :
    (∃ m, t.bfsFromDestination rdmaMtu dst n = some m ∧ m.hops = k) ↔
      t.graph.Reachable dst n ∧ t.graph.dist dst n = k := by
  have h := t.bfsFromDestination_isBfs rdmaMtu dst
  constructor
  · rintro ⟨m, hm, rfl⟩
    obtain ⟨hreach, hhops⟩ := h.hops_eq_dist (PathMetrics.extend_hops rdmaMtu) rfl adj_symm hm
    exact ⟨hreach, hhops.symm⟩
  · rintro ⟨hreach, rfl⟩
    obtain ⟨m, hm⟩ := (h.exists_iff_reachable (PathMetrics.extend_hops rdmaMtu) rfl adj_symm n).mpr hreach
    exact ⟨m, hm, (h.hops_eq_dist (PathMetrics.extend_hops rdmaMtu) rfl adj_symm hm).2⟩

/-- The next hops are the edges along shortest paths. -/
theorem mem_nextHops (rdmaMtu : Nat) {dst n : Nat} (e : QbbEdge) :
    e ∈ t.nextHops rdmaMtu dst n ↔ e ∈ t.adj n ∧ t.graph.Reachable dst n ∧
      t.graph.dist dst e.peer + 1 = t.graph.dist dst n := by
  have hpeer : ∀ (m : PathMetrics), n ≠ dst → t.graph.Reachable dst n →
      t.graph.dist dst n = m.hops → e ∈ t.adj n →
      ((match t.bfsFromDestination rdmaMtu dst e.peer with
        | none => false
        | some peer => peer.hops == m.hops - 1) = true ↔
          t.graph.dist dst e.peer + 1 = t.graph.dist dst n) := by
    intro m hne hreach hdist he
    have hpos := hreach.pos_dist_of_ne (Ne.symm hne)
    have hpeer : t.graph.Reachable dst e.peer := by
      by_cases heq : n = e.peer
      · exact heq ▸ hreach
      · exact hreach.trans (SimpleGraph.Adj.reachable (graph_adj.mpr ⟨heq, e, he, rfl⟩))
    obtain ⟨mp, hmp, hhops⟩ := (t.bfsFromDestination_hops rdmaMtu _).mpr ⟨hpeer, rfl⟩
    rw [hmp]
    simp only [beq_iff_eq]
    omega
  rw [nextHops]
  by_cases hne : n = dst
  · rw [if_pos hne]
    subst hne
    simp
  · rw [if_neg hne]
    cases hm : t.bfsFromDestination rdmaMtu dst n with
    | none =>
        have hnot : ¬ t.graph.Reachable dst n := by
          intro hreach
          obtain ⟨m, hsome, -⟩ := (t.bfsFromDestination_hops rdmaMtu _).mpr ⟨hreach, rfl⟩
          rw [hm] at hsome
          cases hsome
        simp [hnot]
    | some m =>
        obtain ⟨hreach, hdist⟩ := (t.bfsFromDestination_hops rdmaMtu _).mp ⟨m, hm, rfl⟩
        rw [List.mem_filter]
        constructor
        · rintro ⟨he, hcloser⟩
          exact ⟨he, hreach, (hpeer m hne hreach hdist he).mp hcloser⟩
        · rintro ⟨he, -, hcloser⟩
          exact ⟨he, (hpeer m hne hreach hdist he).mpr hcloser⟩

theorem exists_closer {u v : Nat} (hreach : t.graph.Reachable u v) (hne : u ≠ v) :
    ∃ w, t.graph.Adj v w ∧ t.graph.Reachable u w ∧ t.graph.dist u w + 1 = t.graph.dist u v := by
  obtain ⟨p, hp⟩ := hreach.symm.exists_walk_length_eq_dist
  cases p with
  | nil => exact absurd rfl hne
  | @cons _ w _ hadj p =>
      refine ⟨w, hadj, ⟨p.reverse⟩, ?_⟩
      rw [SimpleGraph.Walk.length_cons] at hp
      have hle := SimpleGraph.dist_le p
      have hback := SimpleGraph.dist_le (SimpleGraph.Walk.cons hadj
        (SimpleGraph.Reachable.exists_walk_length_eq_dist ⟨p⟩).choose)
      have hchoose := (SimpleGraph.Reachable.exists_walk_length_eq_dist ⟨p⟩).choose_spec
      rw [SimpleGraph.Walk.length_cons, hchoose] at hback
      rw [SimpleGraph.dist_comm, SimpleGraph.dist_comm (u := u)]
      omega

theorem registers_iff (rdmaMtu : Nat) {s d : Nat} :
    t.registers rdmaMtu s d ↔ s ∈ t.gpus ∧ d ∈ t.gpus ∧ s ≠ d ∧ t.graph.Reachable s d := by
  rw [registers]
  refine and_congr_right fun _ => and_congr_right fun hd => ?_
  constructor
  · intro h
    obtain ⟨e, he⟩ := List.exists_mem_of_ne_nil _ h
    obtain ⟨-, hreach, hdist⟩ := (t.mem_nextHops rdmaMtu e).mp he
    refine ⟨?_, hreach.symm⟩
    rintro rfl
    rw [SimpleGraph.dist_self] at hdist
    omega
  · rintro ⟨hne, hreach⟩
    obtain ⟨w, hadj, -, hdist⟩ := exists_closer hreach.symm hne.symm
    obtain ⟨-, e, he, rfl⟩ := graph_adj.mp hadj
    exact List.ne_nil_of_mem ((t.mem_nextHops rdmaMtu e).mpr
      ⟨he, hreach.symm, hdist⟩)

/-- The installed entries lead one hop closer to some GPU that has the address. -/
theorem mem_tableEntries (rdmaMtu : Nat) {n ip : Nat} (e : QbbEdge) :
    e ∈ t.tableEntries rdmaMtu n ip ↔ ∃ d ∈ t.gpus, t.ipOf d = ip ∧ e ∈ t.adj n ∧
      t.graph.Reachable d n ∧ t.graph.dist d e.peer + 1 = t.graph.dist d n := by
  rw [tableEntries, List.mem_flatMap]
  refine exists_congr fun d => and_congr_right fun hd => ?_
  by_cases hip : t.ipOf d = ip
  · rw [if_pos hip, t.mem_nextHops rdmaMtu]
    exact (and_iff_right hip).symm
  · rw [if_neg hip]
    simp [hip]

theorem mem_outDevs (rdmaMtu : Nat) {n ip i : Nat} :
    i ∈ t.outDevs rdmaMtu n ip ↔ ∃ e ∈ t.tableEntries rdmaMtu n ip, e.ifIndex = i := by
  rw [outDevs, rtTable, rtTableNxthopNvswitch]
  by_cases hgpu : t.nodeType n = 0
  · rw [if_pos hgpu, if_pos hgpu, List.mem_append, List.mem_map, List.mem_map]
    constructor
    · rintro (⟨e, he, rfl⟩ | ⟨e, he, rfl⟩)
      · exact ⟨e, (List.mem_filter.mp he).1, rfl⟩
      · exact ⟨e, (List.mem_filter.mp he).1, rfl⟩
    · rintro ⟨e, he, rfl⟩
      by_cases hnv : e.peer ∈ t.nvswitches
      · exact .inl ⟨e, List.mem_filter.mpr ⟨he, decide_eq_true hnv⟩, rfl⟩
      · exact .inr ⟨e, List.mem_filter.mpr ⟨he, decide_eq_true hnv⟩, rfl⟩
  · rw [if_neg hgpu, if_neg hgpu, List.mem_map]

/-- The nodes a packet for `ip` may be sent to from `n`. -/
theorem outDevs_peer (rdmaMtu : Nat) {n ip w : Nat} :
    (∃ i ∈ t.outDevs rdmaMtu n ip, t.peerAt n i = some w) ↔ ∃ d ∈ t.gpus, t.ipOf d = ip ∧
      t.graph.Reachable d n ∧ t.graph.Adj n w ∧ t.graph.dist d w + 1 = t.graph.dist d n := by
  constructor
  · rintro ⟨i, hi, hw⟩
    obtain ⟨e, he, rfl⟩ := (mem_outDevs rdmaMtu).mp hi
    obtain ⟨d, hd, hip, hadj, hreach, hdist⟩ := (mem_tableEntries rdmaMtu e).mp he
    rw [peerAt_of_mem_adj hadj] at hw
    cases hw
    refine ⟨d, hd, hip, hreach, graph_adj.mpr ⟨?_, e, hadj, rfl⟩, hdist⟩
    intro heq
    rw [← heq] at hdist
    omega
  · rintro ⟨d, hd, hip, hreach, hadj, hdist⟩
    obtain ⟨-, e, he, rfl⟩ := graph_adj.mp hadj
    exact ⟨e.ifIndex, (mem_outDevs rdmaMtu).mpr
      ⟨e, (mem_tableEntries rdmaMtu e).mpr ⟨d, hd, hip, he, hreach, hdist⟩, rfl⟩,
      peerAt_of_mem_adj he⟩

theorem exists_peerAt (rdmaMtu : Nat) {n ip i : Nat} (hi : i ∈ t.outDevs rdmaMtu n ip) :
    ∃ w, t.peerAt n i = some w := by
  obtain ⟨e, he, rfl⟩ := (mem_outDevs rdmaMtu).mp hi
  obtain ⟨d, -, -, hadj, -⟩ := (mem_tableEntries rdmaMtu e).mp he
  exact ⟨e.peer, peerAt_of_mem_adj hadj⟩

/-- The topology of a list of links, each end of a link being the next device of its node. -/
def ofLinks (gpus switches nvswitches : List Nat) (links : List (Nat × Nat))
    (nodup : (gpus ++ switches ++ nvswitches).Nodup)
    (hlinks : ∀ l ∈ links, l.1 ∈ gpus ++ switches ++ nvswitches ∧
      l.2 ∈ gpus ++ switches ++ nvswitches) : Topology where
  gpus := gpus
  switches := switches
  nvswitches := nvswitches
  devices n := links.filterMap fun l =>
    if l.1 = n then some (some ⟨l.2, 1000, 100⟩)
    else if l.2 = n then some (some ⟨l.1, 1000, 100⟩)
    else none
  nodup := nodup
  peer_mem := by
    intro n q hq
    obtain ⟨l, hl, hdevice⟩ := List.mem_filterMap.mp hq
    by_cases h₁ : l.1 = n
    · rw [if_pos h₁] at hdevice
      cases hdevice
      exact (hlinks l hl).2
    · rw [if_neg h₁] at hdevice
      by_cases h₂ : l.2 = n
      · rw [if_pos h₂] at hdevice
        cases hdevice
        exact (hlinks l hl).1
      · rw [if_neg h₂] at hdevice
        cases hdevice
  symm := by
    intro n q hq
    obtain ⟨l, hl, hdevice⟩ := List.mem_filterMap.mp hq
    by_cases h₁ : l.1 = n
    · rw [if_pos h₁] at hdevice
      cases hdevice
      refine ⟨⟨l.1, 1000, 100⟩, List.mem_filterMap.mpr ⟨l, hl, ?_⟩, h₁⟩
      by_cases hself : l.1 = l.2
      · rw [if_pos hself, hself]
      · rw [if_neg hself, if_pos rfl]
    · rw [if_neg h₁] at hdevice
      by_cases h₂ : l.2 = n
      · rw [if_pos h₂] at hdevice
        cases hdevice
        exact ⟨⟨l.2, 1000, 100⟩, List.mem_filterMap.mpr ⟨l, hl, if_pos rfl⟩, h₂⟩
      · rw [if_neg h₂] at hdevice
        cases hdevice

end Topology

end CollectiveSim.Fabric
