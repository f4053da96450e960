import CollectiveSim.Framework.Flood
import CollectiveSim.Mtp.LogicalProcess

/-!
# The partition into logical processes

`MultithreadedSimulatorImpl::Partition` puts nodes into one system as long as it can go on over
channels that it does not cut. It goes from a device to the one channel that the device names, and
from there to all devices that the channel lists.
-/

namespace CollectiveSim.Mtp

open Framework

/-- Nodes, devices and channels. All devices that name a channel answer `IsPointToPoint` alike; a
point-to-point channel has its two ends. -/
structure Topo where
  nodeCount : Nat
  deviceCount : Nat
  channelCount : Nat
  node : Fin deviceCount → Fin nodeCount
  channel : Fin deviceCount → Option (Fin channelCount)
  isPointToPoint : Fin channelCount → Bool
  delay : Fin channelCount → Int
  attached : Fin channelCount → List (Fin deviceCount)
  ends : ∀ c, isPointToPoint c = true → 2 ≤ (attached c).length

namespace Topo

variable (net : Topo)

def devices (v : Fin net.nodeCount) : List (Fin net.deviceCount) :=
  (List.finRange net.deviceCount).filter fun d => net.node d = v

/-- The delays of the point-to-point channels, once for every device. -/
def delays : List Int :=
  (List.finRange net.nodeCount).flatMap fun v =>
    (net.devices v).filterMap fun d =>
      match net.channel d with
      | none => none
      | some c => if net.isPointToPoint c then some (net.delay c) else none

/-- The median of the delays; 0 if there are none. -/
def median (delays : List Int) : Int :=
  let delays := delays.insertionSort (· ≤ ·)
  let size := delays.length
  if size = 0 then 0
  else if size % 2 = 1 then delays.getD (size / 2) 0
  else (delays.getD (size / 2 - 1) 0 + delays.getD (size / 2) 0).tdiv 2

/-- `m_minLookahead` behind the first part of `Partition`. -/
def minLookahead (m_minLookahead : Int) : Int :=
  if m_minLookahead = 0 then median net.delays else m_minLookahead

/-- The nodes that `Partition` goes on to from a node. -/
def adjacent (threshold : Int) (v : Fin net.nodeCount) : List (Fin net.nodeCount) :=
  (net.devices v).flatMap fun d =>
    match net.channel d with
    | none => []
    | some c =>
        if net.isPointToPoint c ∧ threshold ≤ net.delay c then []
        else (net.attached c).map net.node

end Topo

/-- What `Partition` leaves behind. -/
structure Partitioning (nodeCount : Nat) where
  minLookahead : Int
  systemCount : Nat
  systemId : Fin nodeCount → Nat

namespace Topo

variable (net : Topo)

/-- `Partition` up to the system count; `none` when the fuel runs out. A node is visited when it has
a system id. -/
def partition (fuel : Nat) (m_minLookahead : Int) : Option (Partitioning net.nodeCount) := do
  let threshold := net.minLookahead m_minLookahead
  let (systemCount, systemId) ←
    Flood.number (net.adjacent threshold) fuel (List.finRange net.nodeCount) 0 fun _ => none
  return ⟨threshold, systemCount, fun v => (systemId v).getD 0⟩

/-- The device that `CalculateLookAhead` takes for the other end of a channel. -/
def remoteDevice (c : Fin net.channelCount) (d : Fin net.deviceCount) : Fin net.deviceCount :=
  match net.attached c with
  | first :: second :: _ => if first = d then second else first
  | _ => d

/-- The loop over the devices of one node of the process. -/
def nodeLookAhead (systemId : Fin net.nodeCount → Nat) (m_systemId : Nat) (v : Fin net.nodeCount)
    (lookAhead : Int) : Int :=
  (net.devices v).foldl (fun look d =>
    match net.channel d with
    | none => look
    | some c =>
        if !net.isPointToPoint c then look
        else if systemId (net.node (net.remoteDevice c d)) = m_systemId then look
        else if net.delay c < look then net.delay c
        else look) lookAhead

def calculateLookAhead (systemId : Fin net.nodeCount → Nat) (m_systemId : Nat) : Int :=
  if m_systemId = 0 then 0
  else (List.finRange net.nodeCount).foldl (fun look v =>
    if systemId v ≠ m_systemId then look
    else net.nodeLookAhead systemId m_systemId v look) (timeMax / 2 - 1 : Nat)

/-! ## What a partition is for -/

/-- The channel has a device of the node. -/
def On (v : Fin net.nodeCount) (c : Fin net.channelCount) : Prop :=
  ∃ d, net.node d = v ∧ (net.channel d = some c ∨ d ∈ net.attached c)

/-- Not point-to-point, or with a delay below the threshold. -/
def Uncut (threshold : Int) (c : Fin net.channelCount) : Prop :=
  ¬ net.isPointToPoint c ∨ net.delay c < threshold

/-- An uncut channel has devices of both nodes. -/
def Joined (threshold : Int) (u v : Fin net.nodeCount) : Prop :=
  ∃ c, net.Uncut threshold c ∧ net.On u c ∧ net.On v c

/-- Nodes are connected through uncut channels. -/
def Connected (threshold : Int) : Fin net.nodeCount → Fin net.nodeCount → Prop :=
  Relation.EqvGen (net.Joined threshold)

/-- Systems are what uncut channels connect, numbered from 1, and no process looks less far ahead
than the threshold. -/
structure Partitioned (p : Partitioning net.nodeCount) : Prop where
  same : ∀ u v, p.systemId u = p.systemId v ↔ net.Connected p.minLookahead u v
  ids : ∀ k, (∃ v, p.systemId v = k) ↔ 1 ≤ k ∧ k ≤ p.systemCount
  lookahead : ∀ k, 1 ≤ k → k ≤ p.systemCount → p.minLookahead ≤ net.calculateLookAhead p.systemId k

/-- From the first node of every component the devices' channels lead to all of it. -/
def FirstReachesAll (threshold : Int) : Prop :=
  ∀ root, (∀ u, net.Connected threshold root u → root ≤ u) → ∀ v, net.Connected threshold root v →
    Relation.ReflTransGen (fun u w => w ∈ net.adjacent threshold u) root v

section

variable {net} {threshold : Int} {u v w : Fin net.nodeCount} {c : Fin net.channelCount}
  {d : Fin net.deviceCount}

theorem mem_devices : d ∈ net.devices v ↔ net.node d = v := by
  simp [devices]

theorem mem_adjacent_iff : w ∈ net.adjacent threshold v ↔
    ∃ d c, net.node d = v ∧ net.channel d = some c ∧ net.Uncut threshold c ∧
      ∃ d' ∈ net.attached c, net.node d' = w := by
  have hstep (d : Fin net.deviceCount) : (w ∈ match net.channel d with
      | none => []
      | some c => if net.isPointToPoint c ∧ threshold ≤ net.delay c then []
          else (net.attached c).map net.node) ↔
      ∃ c, net.channel d = some c ∧ net.Uncut threshold c ∧
        ∃ d' ∈ net.attached c, net.node d' = w := by
    cases hc : net.channel d with
    | none => simp
    | some c =>
        by_cases hcut : net.isPointToPoint c ∧ threshold ≤ net.delay c
        · simp [Uncut, hcut.1, hcut.2]
        · have huncut : net.Uncut threshold c := by
            rw [Uncut]
            by_contra hnot
            rw [not_or, not_not, not_lt] at hnot
            exact hcut hnot
          simp [hcut, huncut]
  rw [adjacent, List.mem_flatMap]
  constructor
  · rintro ⟨d, hd, hw⟩
    obtain ⟨c, hc⟩ := (hstep d).mp hw
    exact ⟨d, c, mem_devices.mp hd, hc⟩
  · rintro ⟨d, c, hd, hc⟩
    exact ⟨d, mem_devices.mpr hd, (hstep d).mpr ⟨c, hc⟩⟩

theorem joined_of_mem_adjacent (h : w ∈ net.adjacent threshold v) : net.Joined threshold v w := by
  obtain ⟨d, c, hd, hc, huncut, d', hd', hw⟩ := mem_adjacent_iff.mp h
  exact ⟨c, huncut, ⟨d, hd, .inl hc⟩, ⟨d', hw, .inr hd'⟩⟩

theorem Joined.symm (h : net.Joined threshold u v) : net.Joined threshold v u := by
  obtain ⟨c, huncut, hu, hv⟩ := h
  exact ⟨c, huncut, hv, hu⟩

theorem remoteDevice_mem (hc : net.isPointToPoint c) (d : Fin net.deviceCount) :
    net.remoteDevice c d ∈ net.attached c := by
  have hends := net.ends c hc
  rw [remoteDevice]
  match hattached : net.attached c with
  | [] | [_] =>
      rw [hattached] at hends
      simp at hends
  | first :: second :: rest =>
      dsimp only
      split <;> simp

/-! ## Lookahead -/

theorem calculateLookAhead_induct {P : Int → Prop} {systemId : Fin net.nodeCount → Nat} {k : Nat}
    (hk : k ≠ 0) (hstart : P (timeMax / 2 - 1 : Nat))
    (hstep : ∀ d c look, systemId (net.node d) = k → net.channel d = some c → net.isPointToPoint c →
      systemId (net.node (net.remoteDevice c d)) ≠ k → P look → net.delay c < look →
        P (net.delay c)) :
    P (net.calculateLookAhead systemId k) := by
  rw [calculateLookAhead, if_neg hk]
  apply List.foldlRecOn (motive := P) _ _ hstart
  intro look hlook v _
  split
  · exact hlook
  · next hv =>
      apply List.foldlRecOn (motive := P) _ _ hlook
      intro look hlook d hd
      have hnode : systemId (net.node d) = k := by
        rw [mem_devices.mp hd]
        exact not_not.mp hv
      cases hc : net.channel d with
      | none => exact hlook
      | some c =>
          dsimp only
          split_ifs with hpoint hremote hlt
          · exact hlook
          · exact hlook
          · exact hstep d c look hnode hc (by simpa using hpoint) hremote hlook hlt
          · exact hlook

theorem calculateLookAhead_le (systemId : Fin net.nodeCount → Nat) {k : Nat} (hk : k ≠ 0) :
    net.calculateLookAhead systemId k ≤ (timeMax / 2 - 1 : Nat) := by
  apply calculateLookAhead_induct (P := fun look => look ≤ (timeMax / 2 - 1 : Nat)) hk le_rfl
  intro d c look _ _ _ _ hlook hlt
  exact hlt.le.trans hlook

theorem le_calculateLookAhead {systemId : Fin net.nodeCount → Nat}
    (hsame : ∀ u v, net.Joined threshold u v → systemId u = systemId v)
    (hle : threshold ≤ (timeMax / 2 - 1 : Nat)) {k : Nat} (hk : k ≠ 0) :
    threshold ≤ net.calculateLookAhead systemId k := by
  apply calculateLookAhead_induct hk hle
  intro d c look hnode hc hpoint hremote _ _
  by_contra hnot
  have huncut : net.Uncut threshold c := .inr (not_le.mp hnot)
  have hjoined : net.Joined threshold (net.node d) (net.node (net.remoteDevice c d)) :=
    ⟨c, huncut, ⟨d, rfl, .inl hc⟩, ⟨_, rfl, .inr (remoteDevice_mem hpoint d)⟩⟩
  exact hremote ((hsame _ _ hjoined).symm.trans hnode)

/-! ## Partitions -/

/-- Every channel lists the devices that name it. -/
def Consistent (net : Topo) : Prop := ∀ d c, net.channel d = some c ↔ d ∈ net.attached c

instance : Decidable net.Consistent :=
  inferInstanceAs (Decidable (∀ d, ∀ c, net.channel d = some c ↔ d ∈ net.attached c))

theorem Consistent.firstReachesAll (h : net.Consistent) (threshold : Int) :
    net.FirstReachesAll threshold := by
  apply Flood.reachesComponents_of_symm
  · exact fun u v => Joined.symm
  · rintro u v ⟨c, huncut, ⟨d, hd, hc⟩, ⟨d', hd', hc'⟩⟩
    have hchannel : net.channel d = some c := hc.elim id (h d c).mpr
    have hattached : d' ∈ net.attached c := hc'.elim (h d' c).mp id
    exact mem_adjacent_iff.mpr ⟨d, c, hd, hchannel, huncut, d', hattached, hd'⟩

theorem partitioned_iff {fuel : Nat} {m_minLookahead : Int} {p : Partitioning net.nodeCount}
    (h : net.partition fuel m_minLookahead = some p) :
    net.Partitioned p ↔ net.FirstReachesAll p.minLookahead ∧
      (net.nodeCount = 0 ∨ p.minLookahead ≤ (timeMax / 2 - 1 : Nat)) := by
  obtain ⟨⟨systemCount, label⟩, hnumber, hp⟩ := Option.bind_eq_some_iff.mp h
  cases hp
  dsimp only
  have hall : ∀ v, v ∈ List.finRange net.nodeCount := List.mem_finRange
  have hsorted := List.pairwise_lt_finRange net.nodeCount
  have hfinal := (Flood.Numbered.initial hall).number hsorted hnumber
  have hsome (v : Fin net.nodeCount) : ∃ k, label v = some k :=
    Option.isSome_iff_exists.mp ((hfinal.earlier v).resolve_left List.not_mem_nil)
  have hsystem (v : Fin net.nodeCount) (k : Nat) : (label v).getD 0 = k ↔ label v = some k := by
    obtain ⟨k', hk'⟩ := hsome v
    simp [hk']
  have hiff := Flood.separated_iff hall hsorted (fun _ _ => joined_of_mem_adjacent) hnumber
  have hids (k : Nat) : (∃ v, (label v).getD 0 = k) ↔ 1 ≤ k ∧ k ≤ systemCount := by
    rw [← hfinal.used k]
    exact exists_congr fun v => hsystem v k
  have hsame : (∀ u v, (label u).getD 0 = (label v).getD 0 ↔
      net.Connected (net.minLookahead m_minLookahead) u v) ↔
        net.FirstReachesAll (net.minLookahead m_minLookahead) := by
    rw [← show _ ↔ net.FirstReachesAll _ from hiff]
    apply forall₂_congr
    intro u v
    obtain ⟨k, hk⟩ := hsome u
    obtain ⟨k', hk'⟩ := hsome v
    simp [hk, hk', Connected]
  constructor
  · rintro ⟨hconnected, -, hlook⟩
    refine ⟨hsame.mp hconnected, ?_⟩
    by_cases hzero : net.nodeCount = 0
    · exact .inl hzero
    · obtain ⟨k, hk⟩ := hsome ⟨0, Nat.pos_of_ne_zero hzero⟩
      obtain ⟨hpos, hle⟩ := (hids k).mp ⟨_, (hsystem _ k).mpr hk⟩
      exact .inr ((hlook k hpos hle).trans (calculateLookAhead_le _ (by omega)))
  · rintro ⟨hreaches, hle⟩
    have hconnected := hsame.mpr hreaches
    refine ⟨hconnected, hids, ?_⟩
    intro k hpos hk
    obtain ⟨v, -⟩ := (hids k).mpr ⟨hpos, hk⟩
    have hnonempty : net.nodeCount ≠ 0 := v.pos.ne'
    exact le_calculateLookAhead (fun u v h => (hconnected u v).mpr (.rel _ _ h))
      (hle.resolve_left hnonempty) (by omega)

theorem exists_partition (net : Topo) (m_minLookahead : Int) :
    ∃ N, ∀ fuel, N ≤ fuel → ∃ p, net.partition fuel m_minLookahead = some p ∧
      p.minLookahead = net.minLookahead m_minLookahead := by
  obtain ⟨N, hN⟩ := Flood.exists_number (net.adjacent (net.minLookahead m_minLookahead))
    (List.finRange net.nodeCount) 0 fun _ => none
  refine ⟨N, fun fuel hfuel => ?_⟩
  obtain ⟨⟨systemCount, systemId⟩, hnumber⟩ := hN fuel hfuel
  refine ⟨⟨net.minLookahead m_minLookahead, systemCount, fun v => (systemId v).getD 0⟩, ?_, rfl⟩
  rw [partition, hnumber]
  rfl

/-- `Partition` ends, and its systems are the connected ones with the lookahead they should have
exactly where the first node of each reaches all of it and the threshold is not above what stands
for no lookahead limit. -/
theorem partition_partitioned_iff (net : Topo) (m_minLookahead : Int) :
    ∃ N, ∀ fuel, N ≤ fuel → ∃ p, net.partition fuel m_minLookahead = some p ∧
      (net.Partitioned p ↔ net.FirstReachesAll (net.minLookahead m_minLookahead) ∧
        (net.nodeCount = 0 ∨ net.minLookahead m_minLookahead ≤ (timeMax / 2 - 1 : Nat))) := by
  obtain ⟨N, hN⟩ := net.exists_partition m_minLookahead
  refine ⟨N, fun fuel hfuel => ?_⟩
  obtain ⟨p, hp, hthreshold⟩ := hN fuel hfuel
  refine ⟨p, hp, ?_⟩
  rw [← hthreshold]
  exact partitioned_iff hp

/-- Where devices and channels name each other the partition is right. -/
theorem Consistent.partitioned (h : net.Consistent) {fuel : Nat} {m_minLookahead : Int}
    {p : Partitioning net.nodeCount} (hp : net.partition fuel m_minLookahead = some p)
    (hle : p.minLookahead ≤ (timeMax / 2 - 1 : Nat)) : net.Partitioned p :=
  (partitioned_iff hp).mpr ⟨h.firstReachesAll p.minLookahead, .inr hle⟩

end

/-- A switch, node 0, with a channel to each of two hosts. Its one device names the first channel, as
`P4SwitchNetDevice::GetChannel` does. -/
def switchedHosts : Topo where
  nodeCount := 3
  deviceCount := 3
  channelCount := 2
  node := id
  channel := ![some 0, some 0, some 1]
  isPointToPoint _ := false
  delay _ := 1000
  attached := ![[1, 0], [2, 0]]
  ends c h := by cases h

/-- The second host gets a system of its own, on the other side of a channel that is not cut. -/
theorem switchedHosts_not_partitioned : ∃ p, switchedHosts.partition 5 0 = some p ∧
    p.systemId (0 : Fin 3) = 1 ∧ p.systemId (2 : Fin 3) = 2 ∧
      ¬ ∀ u v, p.systemId u = p.systemId v ↔ switchedHosts.Connected p.minLookahead u v := by
  have hids : (switchedHosts.partition 5 0).map
      (fun p => (p.systemId (0 : Fin 3), p.systemId (2 : Fin 3))) = some (1, 2) := by decide +kernel
  obtain ⟨p, hp, hids⟩ := Option.map_eq_some_iff.mp hids
  have hswitch : p.systemId (0 : Fin 3) = 1 := congrArg Prod.fst hids
  have hhost : p.systemId (2 : Fin 3) = 2 := congrArg Prod.snd hids
  refine ⟨p, hp, hswitch, hhost, fun hsame => ?_⟩
  have hlisted : (0 : Fin 3) ∈ ([2, 0] : List (Fin 3)) := by decide
  have hjoined : switchedHosts.Joined p.minLookahead (0 : Fin 3) (2 : Fin 3) :=
    ⟨(1 : Fin 2), .inl Bool.false_ne_true, ⟨(0 : Fin 3), rfl, .inr hlisted⟩,
      ⟨(2 : Fin 3), rfl, .inl rfl⟩⟩
  have heq := (hsame _ _).mpr (.rel _ _ hjoined)
  rw [hswitch, hhost] at heq
  cases heq

end Topo

end CollectiveSim.Mtp
