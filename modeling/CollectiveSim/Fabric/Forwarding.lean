import Mathlib
import CollectiveSim.Fabric.Routing

/-!
# Hop-by-hop forwarding

A packet leaves a node through any interface installed for its destination address; a node that
receives it forwards or consumes it. The tables compose to shortest paths exactly when those paths
run through forwarding nodes only and the address names no third GPU.
-/

namespace CollectiveSim.Fabric.Topology

open Framework

variable (t : Topology)

/-- `QbbNetDevice::Receive` for a packet with `tos` other than 4: a GPU consumes it, and so does any
node whose id stands in bits 8 to 23 of the destination address. -/
def consumes (n ip : Nat) : Bool := !(decide (0 < t.nodeType n) && decide (ipToNodeId ip ≠ n))

/-- Whatever interfaces are chosen, a packet for `ip` that `n` sends is at `d` after `k` hops, every
node before forwarding it. -/
def Arrives (rdmaMtu ip d : Nat) : Nat → Nat → Prop
  | 0, _ => False
  | k + 1, n => t.outDevs rdmaMtu n ip ≠ [] ∧
      ∀ i ∈ t.outDevs rdmaMtu n ip, ∀ w, t.peerAt n i = some w →
        if w = d then k = 0 else t.consumes w ip = false ∧ Arrives rdmaMtu ip d k w

/-- Every registered pair is connected by the tables in exactly the recorded number of hops. -/
def RoutesExactly (rdmaMtu : Nat) : Prop :=
  ∀ s d m, t.registers rdmaMtu s d → t.bfsFromDestination rdmaMtu d s = some m →
    t.Arrives rdmaMtu (t.ipOf d) d m.hops s

/-- `v` lies strictly inside a shortest path from `s` to `d`. -/
def StrictlyBetween (s v d : Nat) : Prop :=
  v ≠ s ∧ v ≠ d ∧ t.graph.Reachable s v ∧ t.graph.dist s v + t.graph.dist v d = t.graph.dist s d

/-- The condition on a pair of GPUs: shortest paths avoid GPUs and the node with id 0, no third GPU
has the address of the destination, and a source that has it is adjacent. -/
structure Routable (s d : Nat) : Prop where
  inner : ∀ v, t.StrictlyBetween s v d → v ∉ t.gpus ∧ v ≠ 0
  unshared : ∀ d' ∈ t.gpus, d' ≠ s → d' ≠ d → t.graph.Reachable s d' → t.ipOf d' ≠ t.ipOf d
  adjacent : t.ipOf s = t.ipOf d → t.graph.Adj s d

variable {t}

theorem consumes_eq_false_iff {n gpu : Nat} :
    t.consumes n (t.ipOf gpu) = false ↔ n ∉ t.gpus ∧ n ≠ 0 := by
  have htype : 0 < t.nodeType n ↔ n ∉ t.gpus := by
    rw [nodeType]
    by_cases hgpu : n ∈ t.gpus
    · simp [hgpu]
    · rw [if_neg hgpu]
      by_cases hsw : n ∈ t.switches <;> simp [hgpu, hsw]
  rw [consumes, ipOf, ipToNodeId_gpuIp, Bool.not_eq_false', Bool.and_eq_true, decide_eq_true_iff,
    decide_eq_true_iff, htype]
  exact and_congr_right fun _ => ne_comm

theorem consumes_gpu {d gpu : Nat} (hd : d ∈ t.gpus) : t.consumes d (t.ipOf gpu) = true := by
  by_contra hne
  rw [Bool.not_eq_true] at hne
  exact (consumes_eq_false_iff.mp hne).1 hd

theorem Arrives.next {rdmaMtu ip d k n w : Nat} (h : t.Arrives rdmaMtu ip d (k + 1) n)
    {d' : Nat} (hd' : d' ∈ t.gpus) (hip : t.ipOf d' = ip) (hreach : t.graph.Reachable d' n)
    (hadj : t.graph.Adj n w) (hdist : t.graph.dist d' w + 1 = t.graph.dist d' n) :
    if w = d then k = 0 else t.consumes w ip = false ∧ t.Arrives rdmaMtu ip d k w := by
  obtain ⟨i, hi, hw⟩ := (t.outDevs_peer rdmaMtu).mpr ⟨d', hd', hip, hreach, hadj, hdist⟩
  exact h.2 i hi w hw

/-- Packets for one address cannot always arrive at two different GPUs. -/
theorem Arrives.unique {rdmaMtu gpu d d' k k' n : Nat} (hd : d ∈ t.gpus) (hd' : d' ∈ t.gpus)
    (h : t.Arrives rdmaMtu (t.ipOf gpu) d k n) (h' : t.Arrives rdmaMtu (t.ipOf gpu) d' k' n) :
    d = d' := by
  induction k generalizing k' n with
  | zero => exact absurd h id
  | succ k ih =>
      cases k' with
      | zero => exact absurd h' id
      | succ k' =>
          obtain ⟨i, hi⟩ := List.exists_mem_of_ne_nil _ h.1
          obtain ⟨w, hw⟩ := exists_peerAt rdmaMtu hi
          have hnext := h.2 i hi w hw
          have hnext' := h'.2 i hi w hw
          by_cases hwd : w = d
          · by_cases hwd' : w = d'
            · exact hwd.symm.trans hwd'
            · rw [if_neg hwd', hwd, consumes_gpu hd] at hnext'
              cases hnext'.1
          · rw [if_neg hwd] at hnext
            by_cases hwd' : w = d'
            · rw [hwd', consumes_gpu hd'] at hnext
              cases hnext.1
            · rw [if_neg hwd'] at hnext'
              exact ih hnext.2 hnext'.2

theorem exists_toward {u v d : Nat} (huv : u ≠ v) (hreach : t.graph.Reachable u v)
    (hvd : t.graph.Reachable v d)
    (hsum : t.graph.dist u v + t.graph.dist v d = t.graph.dist u d) :
    ∃ w, t.graph.Adj u w ∧ t.graph.dist w v + 1 = t.graph.dist u v ∧
      t.graph.dist w v + t.graph.dist v d = t.graph.dist w d ∧
      t.graph.dist w d + 1 = t.graph.dist u d ∧ t.graph.Reachable w v := by
  obtain ⟨w, hadj, hvw, hdist⟩ := exists_closer hreach.symm huv.symm
  rw [SimpleGraph.dist_comm, SimpleGraph.dist_comm (u := v)] at hdist
  have hwd : t.graph.dist w d ≤ t.graph.dist w v + t.graph.dist v d := by
    obtain ⟨p, hp⟩ := hvw.symm.exists_walk_length_eq_dist
    obtain ⟨q, hq⟩ := hvd.exists_walk_length_eq_dist
    have := SimpleGraph.dist_le (p.append q)
    rwa [SimpleGraph.Walk.length_append, hp, hq] at this
  have hud : t.graph.dist u d ≤ t.graph.dist w d + 1 := by
    obtain ⟨p, hp⟩ := (hvw.symm.trans hvd).exists_walk_length_eq_dist
    have := SimpleGraph.dist_le (SimpleGraph.Walk.cons hadj p)
    rwa [SimpleGraph.Walk.length_cons, hp] at this
  exact ⟨w, hadj, hdist, by omega, by omega, hvw.symm⟩

theorem Arrives.inner {rdmaMtu d k u v : Nat} (hd : d ∈ t.gpus) (hvd : v ≠ d)
    (huv : u ≠ v) (hreach : t.graph.Reachable u v) (hreach' : t.graph.Reachable v d)
    (hsum : t.graph.dist u v + t.graph.dist v d = t.graph.dist u d)
    (h : t.Arrives rdmaMtu (t.ipOf d) d k u) : t.consumes v (t.ipOf d) = false := by
  induction k generalizing u with
  | zero => exact absurd h id
  | succ k ih =>
      obtain ⟨w, hadj, -, hsum', hdist, hwv⟩ := exists_toward huv hreach hreach' hsum
      have hnext := h.next hd rfl (hreach.trans hreach').symm hadj
        (by rwa [SimpleGraph.dist_comm, SimpleGraph.dist_comm (u := d)])
      have hpos := hreach'.pos_dist_of_ne hvd
      have hwd : w ≠ d := by
        rintro rfl
        rw [SimpleGraph.dist_self] at hsum'
        omega
      rw [if_neg hwd] at hnext
      by_cases hwv' : w = v
      · exact hwv' ▸ hnext.1
      · exact ih hwv' hwv hsum' hnext.2

/-- On a routable pair every node of a shortest path sends on along a shortest path. -/
theorem Routable.arrives {rdmaMtu s d : Nat} (hd : d ∈ t.gpus)
    (h : t.Routable s d) (k v : Nat) (hsv : t.graph.Reachable s v) (hvd : t.graph.Reachable v d)
    (hne : v ≠ d) (hk : t.graph.dist v d = k)
    (hsum : t.graph.dist s v + t.graph.dist v d = t.graph.dist s d) :
    t.Arrives rdmaMtu (t.ipOf d) d k v := by
  induction k generalizing v with
  | zero => exact absurd (hvd.dist_eq_zero_iff.mp hk) hne
  | succ k ih =>
      refine ⟨?_, ?_⟩
      · obtain ⟨w, hadj, -, hdist⟩ := exists_closer hvd.symm (Ne.symm hne)
        obtain ⟨i, hi, -⟩ :=
          (t.outDevs_peer rdmaMtu).mpr ⟨d, hd, rfl, hvd.symm, hadj, hdist⟩
        exact List.ne_nil_of_mem hi
      · intro i hi w hw
        obtain ⟨d', hd', hip, hreach, hadj, hdist⟩ := (t.outDevs_peer rdmaMtu).mp ⟨i, hi, hw⟩
        have hdd' : d' = d := by
          by_contra hdd'
          by_cases hs : d' = s
          · -- the source has the address, so the destination is its neighbour
            subst hs
            have hone := SimpleGraph.dist_eq_one_iff_adj.mpr (h.adjacent hip)
            have hpos := hvd.pos_dist_of_ne hne
            omega
          · exact h.unshared d' hd' hs hdd' (hsv.trans hreach.symm) hip
        subst hdd'
        rw [SimpleGraph.dist_comm, SimpleGraph.dist_comm (u := d')] at hdist
        have hwk : t.graph.dist w d' = k := by omega
        have hwd : t.graph.Reachable w d' := hadj.symm.reachable.trans hvd
        by_cases hwd' : w = d'
        · rw [if_pos hwd']
          subst hwd'
          rw [SimpleGraph.dist_self] at hwk
          exact hwk.symm
        · rw [if_neg hwd']
          have hsw : t.graph.Reachable s w := hsv.trans hadj.reachable
          have hle : t.graph.dist s w ≤ t.graph.dist s v + 1 := by
            obtain ⟨p, hp⟩ := hsv.exists_walk_length_eq_dist
            have := SimpleGraph.dist_le (p.concat hadj)
            rwa [SimpleGraph.Walk.length_concat, hp] at this
          have htri : t.graph.dist s d' ≤ t.graph.dist s w + t.graph.dist w d' := by
            obtain ⟨p, hp⟩ := hsw.exists_walk_length_eq_dist
            obtain ⟨q, hq⟩ := hwd.exists_walk_length_eq_dist
            have := SimpleGraph.dist_le (p.append q)
            rwa [SimpleGraph.Walk.length_append, hp, hq] at this
          have hsum' : t.graph.dist s w + t.graph.dist w d' = t.graph.dist s d' := by omega
          have hws : w ≠ s := by
            rintro rfl
            rw [SimpleGraph.dist_self] at hsum'
            omega
          exact ⟨consumes_eq_false_iff.mpr (h.inner w ⟨hws, hwd', hsw, hsum'⟩),
            ih w hsw hwd hwd' hwk hsum'⟩

theorem arrives_of_registers {rdmaMtu s d : Nat} (h : t.RoutesExactly rdmaMtu) (hs : s ∈ t.gpus)
    (hd : d ∈ t.gpus) (hne : s ≠ d) (hreach : t.graph.Reachable s d) :
    t.Arrives rdmaMtu (t.ipOf d) d (t.graph.dist s d) s := by
  obtain ⟨m, hm, hhops⟩ := (t.bfsFromDestination_hops rdmaMtu _).mpr
    ⟨hreach.symm, rfl⟩
  have := h s d m ((t.registers_iff rdmaMtu).mpr ⟨hs, hd, hne, hreach⟩) hm
  rwa [hhops, SimpleGraph.dist_comm] at this

theorem routable_of_routesExactly {rdmaMtu s d : Nat} (h : t.RoutesExactly rdmaMtu)
    (hs : s ∈ t.gpus) (hd : d ∈ t.gpus) (hne : s ≠ d) (hreach : t.graph.Reachable s d) :
    t.Routable s d := by
  have harrive := arrives_of_registers h hs hd hne hreach
  refine ⟨?_, ?_, ?_⟩
  · rintro v ⟨hvs, hvd, hsv, hsum⟩
    exact consumes_eq_false_iff.mp
      (harrive.inner hd hvd (Ne.symm hvs) hsv (hsv.symm.trans hreach) hsum)
  · intro d' hd' hds hdd hreach' hip
    have harrive' := arrives_of_registers h hs hd' (Ne.symm hds) hreach'
    rw [hip] at harrive'
    exact hdd (Arrives.unique hd hd' harrive harrive').symm
  · intro hip
    obtain ⟨k, hk⟩ : ∃ k, t.graph.dist s d = k + 1 :=
      ⟨_, (Nat.succ_pred_eq_of_pos (hreach.pos_dist_of_ne hne)).symm⟩
    obtain ⟨w, hadj, -, hdist⟩ := exists_closer hreach.symm (Ne.symm hne)
    rw [hk] at harrive
    have hnext := harrive.next hd rfl hreach.symm hadj hdist
    by_cases hwd : w = d
    · exact hwd ▸ hadj
    · -- the neighbour may send the packet back to the source, which consumes it
      rw [if_neg hwd] at hnext
      cases k with
      | zero => exact absurd hnext.2 id
      | succ k =>
          have hback := hnext.2.next hs hip hadj.reachable hadj.symm (by
            rw [SimpleGraph.dist_self, SimpleGraph.dist_eq_one_iff_adj.mpr hadj])
          rw [if_neg hne, consumes_gpu hs] at hback
          cases hback.1

/-- The tables route every registered pair exactly when every connected pair of GPUs is routable. -/
theorem routesExactly_iff (t : Topology) (rdmaMtu : Nat) :
    t.RoutesExactly rdmaMtu ↔
      ∀ s ∈ t.gpus, ∀ d ∈ t.gpus, s ≠ d → t.graph.Reachable s d → t.Routable s d := by
  constructor
  · intro h s hs d hd hne hreach
    exact routable_of_routesExactly h hs hd hne hreach
  · intro h s d m hreg hm
    obtain ⟨hs, hd, hne, hreach⟩ := (t.registers_iff rdmaMtu).mp hreg
    obtain ⟨-, hdist⟩ :=
      (t.bfsFromDestination_hops rdmaMtu _).mp ⟨m, hm, rfl⟩
    rw [← hdist, SimpleGraph.dist_comm]
    exact (h s hs d hd hne hreach).arrives hd _ s (SimpleGraph.Reachable.refl s) hreach hne rfl
      (by rw [SimpleGraph.dist_self, Nat.zero_add])

/-- Two switches joined by the two rails of GPU 1. -/
def twoRails : Topology :=
  ofLinks [0, 1, 2] [3, 4] [] [(0, 3), (1, 3), (1, 4), (2, 4)] (by decide) (by decide)

/-- GPU 2 is registered on GPU 0, and GPU 1 consumes the packets between them. -/
theorem twoRails_not_routesExactly :
    twoRails.registers 1000 0 2 ∧
      twoRails.outDevs 1000 0 (twoRails.ipOf 2) = [0] ∧ twoRails.peerAt 0 0 = some 3 ∧
      twoRails.outDevs 1000 3 (twoRails.ipOf 2) = [1] ∧ twoRails.peerAt 3 1 = some 1 ∧
      twoRails.consumes 1 (twoRails.ipOf 2) = true ∧ ¬ twoRails.RoutesExactly 1000 := by
  have hreg : twoRails.registers 1000 0 2 :=
    ⟨by decide, by decide, List.isEmpty_eq_false_iff.mp (by decide +kernel)⟩
  have hout₀ : twoRails.outDevs 1000 0 (twoRails.ipOf 2) = [0] := by decide +kernel
  have hout₃ : twoRails.outDevs 1000 3 (twoRails.ipOf 2) = [1] := by decide +kernel
  have hpeer₀ : twoRails.peerAt 0 0 = some 3 := by decide +kernel
  have hpeer₃ : twoRails.peerAt 3 1 = some 1 := by decide +kernel
  have hconsumes : twoRails.consumes 1 (twoRails.ipOf 2) = true := by decide +kernel
  refine ⟨hreg, hout₀, hpeer₀, hout₃, hpeer₃, hconsumes, ?_⟩
  intro h
  obtain ⟨m, hm, hhops⟩ := Option.map_eq_some_iff.mp
    (by decide +kernel : (twoRails.bfsFromDestination 1000 2 0).map PathMetrics.hops = some 4)
  have harrive := h 0 2 m hreg hm
  rw [hhops] at harrive
  have h₃ := harrive.2 0 (hout₀ ▸ List.mem_singleton_self 0) 3 hpeer₀
  have h₁ := h₃.2.2 1 (hout₃ ▸ List.mem_singleton_self 1) 1 hpeer₃
  have hfalse : twoRails.consumes 1 (twoRails.ipOf 2) = false := h₁.1
  rw [hconsumes] at hfalse
  cases hfalse

end CollectiveSim.Fabric.Topology
