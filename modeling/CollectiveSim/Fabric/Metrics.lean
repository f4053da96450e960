import CollectiveSim.Fabric.Routing

/-!
# Metrics of paths

What `BfsFromDestination` records for a node are the metrics of one shortest path: its delays, its
transmission delays and its lowest rate belong to the same links.
-/

namespace CollectiveSim.Fabric

open Framework

/-- The metrics of a path, link after link. The rate of a path without links is the largest number of
64 bits. -/
def PathMetrics.along (rdmaMtu : Nat) (path : List QbbEdge) : PathMetrics where
  hops := path.length
  delay := (path.map QbbEdge.delay).sum
  txDelay := (path.map fun edge => (rdmaMtu * 8 / edge.rateBps : ℚ)).sum
  bottleneckBps := (path.map QbbEdge.rateBps).foldl min (2 ^ 64 - 1)

namespace PathMetrics

variable (rdmaMtu : Nat)

theorem along_concat (path : List QbbEdge) (edge : QbbEdge) :
    along rdmaMtu (path ++ [edge]) = (along rdmaMtu path).extend rdmaMtu edge := by
  simp [along, extend]

theorem foldl_extend (path : List QbbEdge) :
    path.foldl (extend rdmaMtu) start = along rdmaMtu path := by
  induction path using List.reverseRecOn with
  | nil => rfl
  | append_singleton path edge ih =>
      rw [List.foldl_append, ih, along_concat]
      rfl

theorem along_reverse (path : List QbbEdge) : along rdmaMtu path.reverse = along rdmaMtu path := by
  have hperm := path.reverse_perm
  simp only [along, mk.injEq]
  refine ⟨hperm.length_eq, (hperm.map _).sum_eq, (hperm.map _).sum_eq, ?_⟩
  exact (hperm.map _).foldl_eq _

theorem along_congr {path path' : List QbbEdge}
    (h : List.Forall₂ (fun e e' => e.delay = e'.delay ∧ e.rateBps = e'.rateBps) path path') :
    along rdmaMtu path = along rdmaMtu path' := by
  have hmap : path.map (fun e => (e.delay, e.rateBps)) =
      path'.map fun e => (e.delay, e.rateBps) := by
    induction h with
    | nil => rfl
    | cons hedge _ ih => rw [List.map_cons, List.map_cons, ih, hedge.1, hedge.2]
  have halong (path : List QbbEdge) : along rdmaMtu path =
      let links := path.map fun e => (e.delay, e.rateBps)
      ⟨links.length, (links.map Prod.fst).sum, (links.map fun l => (rdmaMtu * 8 / l.2 : ℚ)).sum,
        (links.map Prod.snd).foldl min (2 ^ 64 - 1)⟩ := by
    simp [along, Function.comp_def]
  rw [halong, halong path', hmap]

end PathMetrics

namespace Topology

variable (t : Topology)

/-- Links one after the other from `u` to `v`, each with the rate of its device on the side of `u`. -/
def Path (u : Nat) (path : List QbbEdge) (v : Nat) : Prop := Bfs.Route t.adj QbbEdge.peer u path v

structure ShortestPath (u : Nat) (path : List QbbEdge) (v : Nat) : Prop where
  isPath : t.Path u path v
  length : path.length = t.graph.dist u v

/-- The devices of a link have one rate, as `QbbHelper::Install` makes them. -/
def Duplex : Prop :=
  ∀ n, ∀ e ∈ t.adj n, ∃ e' ∈ t.adj e.peer,
    e'.peer = n ∧ e.delay = e'.delay ∧ e.rateBps = e'.rateBps

variable {t}

/-- Over links whose devices have one rate a path is as good the other way round. -/
theorem ShortestPath.exists_back (hduplex : t.Duplex) (rdmaMtu : Nat) {u v : Nat}
    {path : List QbbEdge} (h : t.ShortestPath u path v) :
    ∃ path', t.ShortestPath v path' u ∧
      PathMetrics.along rdmaMtu path' = PathMetrics.along rdmaMtu path := by
  obtain ⟨path', hpath', hall⟩ := Bfs.Route.exists_back hduplex h.isPath
  refine ⟨path', ⟨hpath', ?_⟩, ?_⟩
  · rw [SimpleGraph.dist_comm, ← h.length, hall.length_eq, List.length_reverse]
  · rw [← PathMetrics.along_reverse, PathMetrics.along_congr rdmaMtu hall]

/-- The search ends on every topology. It finds the nodes that are connected to the destination, and
what it records for a node are the metrics of one shortest path. -/
theorem bfsFromDestination_metrics (t : Topology) (rdmaMtu dst : Nat) :
    (∀ fuel, t.nodes.length < fuel →
      t.bfsWithin rdmaMtu dst fuel = some (t.bfsFromDestination rdmaMtu dst)) ∧
    ∀ n, ((∃ m, t.bfsFromDestination rdmaMtu dst n = some m) ↔ t.graph.Reachable n dst) ∧
      ∀ m, t.bfsFromDestination rdmaMtu dst n = some m →
        m.hops = t.graph.dist n dst ∧
        (∃ path, t.ShortestPath dst path n ∧ m = .along rdmaMtu path) ∧
        (t.Duplex → ∃ path, t.ShortestPath n path dst ∧ m = .along rdmaMtu path) := by
  have hbfs := t.bfsFromDestination_isBfs rdmaMtu dst
  have hext := PathMetrics.extend_hops rdmaMtu
  refine ⟨fun fuel hfuel => (t.bfsWithin_eq rdmaMtu dst hfuel).1, fun n => ⟨?_, fun m hm => ?_⟩⟩
  · rw [SimpleGraph.reachable_comm]
    exact hbfs.exists_iff_reachable hext rfl adj_symm n
  · have hdist : m.hops = t.graph.dist n dst := by
      rw [SimpleGraph.dist_comm]
      exact (hbfs.hops_eq_dist hext rfl adj_symm hm).2
    obtain ⟨path, hpath, hfold⟩ := hbfs.exists_route hext rfl m.hops hm rfl
    rw [PathMetrics.foldl_extend] at hfold
    have hshortest : t.ShortestPath dst path n := by
      refine ⟨hpath, ?_⟩
      rw [SimpleGraph.dist_comm, ← hdist, ← hfold]
      rfl
    refine ⟨hdist, ⟨path, hshortest, hfold.symm⟩, fun hduplex => ?_⟩
    obtain ⟨path', hshortest', halong⟩ := hshortest.exists_back hduplex rdmaMtu
    exact ⟨path', hshortest', hfold.symm.trans halong.symm⟩

example : (ofLinks [0, 1] [2] [] [(0, 2), (1, 2)] (by decide) (by decide)).bfsFromDestination
    1000 1 0 = some ⟨2, 2000, 160, 100⟩ := by decide +kernel

end Topology

end CollectiveSim.Fabric
