import Mathlib
import CollectiveSim.Fabric.Routing
import CollectiveSim.Switch.Mmu

/-!
# Configuring the memory management units

`RdmaFabricHelper::ConfigureMmu` writes the parameters of every port at the index of its interface,
and `ConfigNPort` adds up the headroom of the indices from one on. A new `SwitchMmu` leaves most of
these members as memory held them.
-/

namespace CollectiveSim.Switch

open Framework Fabric

/-- The configuration members of `SwitchMmu`, those of the ECN marking included. -/
structure SwitchMmu extends MmuConfig where
  nodeId : Nat
  kmin : Nat → Nat
  kmax : Nat → Nat
  pmax : Nat → ℚ

namespace SwitchMmu

variable (m : SwitchMmu)

/-- The constructor, on memory that holds `m`. -/
def construct : SwitchMmu :=
  { m with
    bufferSize := 12 * 1024 * 1024
    reserve := 4 * 1024
    resumeOffset := 3 * 1024
    bufferSize_lt := twelveMegabytes_lt
    reserve_lt := fourKilobytes_lt }

/-- `ConfigHdrm`. An index behind the array is undefined in the source. -/
def configHdrm (port size : Nat) : Option SwitchMmu :=
  if port < pCnt then
    some { m with
      headroom := Function.update m.headroom port (u32 size)
      headroom_lt := fun i => by
        by_cases h : i = port
        · rw [h, Function.update_self]
          exact u32_lt size
        · rw [Function.update_of_ne h]
          exact m.headroom_lt i }
  else none

/-- `ConfigEcn`. -/
def configEcn (port kmin kmax : Nat) (pmax : ℚ) : Option SwitchMmu :=
  if port < pCnt then
    some { m with
      kmin := Function.update m.kmin port (u32 (kmin * 1000))
      kmax := Function.update m.kmax port (u32 (kmax * 1000))
      pmax := Function.update m.pmax port pmax }
  else none

/-- The assignment to `pfc_a_shift`. -/
def setPfcAShift (port shift : Nat) : Option SwitchMmu :=
  if port < pCnt then some { m with pfcAShift := Function.update m.pfcAShift port shift } else none

/-- One round of the loop of `ConfigNPort`. -/
def addPort (i : Nat) : Option SwitchMmu :=
  if i < pCnt then
    some { m with
      totalHdrm := u32 (m.totalHdrm + m.headroom i)
      totalRsrv := u32 (m.totalRsrv + m.reserve)
      totalHdrm_lt := u32_lt _
      totalRsrv_lt := u32_lt _ }
  else none

def clearTotals : SwitchMmu :=
  { m with totalHdrm := 0, totalRsrv := 0, totalHdrm_lt := by decide, totalRsrv_lt := by decide }

/-- `ConfigNPort`. -/
def configNPort (nPort : Nat) : Option SwitchMmu :=
  (List.range' 1 nPort).foldlM addPort m.clearTotals

end SwitchMmu

/-! ## The parameters of a port

`fl` is the rounding of a real number to a `double`. -/

section

variable (fl : ℚ → ℚ)

/-- `std::round` of a number that is not negative, cast to 32 bits. -/
def roundU32 (x : ℚ) : Nat := u32 ⌊x + 1 / 2⌋₊

/-- `headroomBytes`; the delay of a link is in nanoseconds. -/
def headroomBytes (edge : QbbEdge) : Nat :=
  roundU32 (fl (fl (fl (fl edge.rateBps * fl (edge.delay / 10 ^ 9)) * 3) / 8))

def kminBytes (edge : QbbEdge) : ℚ := fl (fl (fl edge.rateBps / 8) * fl (4 / 10 ^ 6))

def kmaxBytes (edge : QbbEdge) : ℚ := fl (kminBytes fl edge * 2)

/-- The loop that takes one from the shift for every halving of the rate. -/
def shiftFrom (baselineRate : ℚ) : Nat → ℚ → Nat
  | 0, _ => 0
  | shift + 1, rate =>
      if rate > baselineRate then shiftFrom baselineRate shift (rate / 2) else shift + 1

def pfcShift (baselineRateBps : Nat) (edge : QbbEdge) : Nat :=
  shiftFrom (fl baselineRateBps) 3 (fl edge.rateBps)

/-- The values of `3nodes.cc` for a link of 71 Gbps and one microsecond. -/
example : headroomBytes id ⟨3, 0, 1000, 71 * 10 ^ 9⟩ = 26625 := by
  decide +kernel

/-- The body of the loop over the edges of a switch. -/
def configPort (baselineRateBps : Nat) (m : SwitchMmu) (edge : QbbEdge) : Option SwitchMmu := do
  let m ← m.configHdrm edge.ifIndex (headroomBytes fl edge)
  let m ← m.configEcn edge.ifIndex (roundU32 (fl (kminBytes fl edge / 1000)))
    (roundU32 (fl (kmaxBytes fl edge / 1000))) (fl (2 / 10))
  m.setPfcAShift edge.ifIndex (pfcShift fl baselineRateBps edge)

/-- The parameters of a port are those of its link. -/
structure IsSet (baselineRateBps : Nat) (m : SwitchMmu) (edge : QbbEdge) : Prop where
  headroom : m.headroom edge.ifIndex = headroomBytes fl edge
  pfcAShift : m.pfcAShift edge.ifIndex = pfcShift fl baselineRateBps edge
  kmin : m.kmin edge.ifIndex = u32 (roundU32 (fl (kminBytes fl edge / 1000)) * 1000)
  kmax : m.kmax edge.ifIndex = u32 (roundU32 (fl (kmaxBytes fl edge / 1000)) * 1000)
  pmax : m.pmax edge.ifIndex = fl (2 / 10)

end

/-- The two configurations have the same parameters at an index. -/
structure SameAt (m m' : SwitchMmu) (i : Nat) : Prop where
  headroom : m'.headroom i = m.headroom i
  pfcAShift : m'.pfcAShift i = m.pfcAShift i
  kmin : m'.kmin i = m.kmin i
  kmax : m'.kmax i = m.kmax i
  pmax : m'.pmax i = m.pmax i

/-- The sizes of the buffer are not touched. -/
structure SameSizes (m m' : SwitchMmu) : Prop where
  bufferSize : m'.bufferSize = m.bufferSize
  reserve : m'.reserve = m.reserve

section

variable {fl : ℚ → ℚ} {baselineRateBps : Nat} {m m' m'' : SwitchMmu} {i : Nat} {edge : QbbEdge}
  {edges : List QbbEdge}

theorem SameAt.trans (h : SameAt m m' i) (h' : SameAt m' m'' i) : SameAt m m'' i where
  headroom := h'.headroom.trans h.headroom
  pfcAShift := h'.pfcAShift.trans h.pfcAShift
  kmin := h'.kmin.trans h.kmin
  kmax := h'.kmax.trans h.kmax
  pmax := h'.pmax.trans h.pmax

theorem SameSizes.trans (h : SameSizes m m') (h' : SameSizes m' m'') : SameSizes m m'' where
  bufferSize := h'.bufferSize.trans h.bufferSize
  reserve := h'.reserve.trans h.reserve

theorem IsSet.of_sameAt (h : IsSet fl baselineRateBps m edge) (hsame : SameAt m m' edge.ifIndex) :
    IsSet fl baselineRateBps m' edge where
  headroom := hsame.headroom.trans h.headroom
  pfcAShift := hsame.pfcAShift.trans h.pfcAShift
  kmin := hsame.kmin.trans h.kmin
  kmax := hsame.kmax.trans h.kmax
  pmax := hsame.pmax.trans h.pmax

theorem headroomBytes_lt (fl : ℚ → ℚ) (edge : QbbEdge) : headroomBytes fl edge < 2 ^ 32 :=
  u32_lt _

theorem configPort_spec (h : configPort fl baselineRateBps m edge = some m') :
    edge.ifIndex < pCnt ∧ IsSet fl baselineRateBps m' edge ∧
      (∀ i ≠ edge.ifIndex, SameAt m m' i) ∧ SameSizes m m' := by
  by_cases hport : edge.ifIndex < pCnt
  · simp only [configPort, SwitchMmu.configHdrm, SwitchMmu.configEcn, SwitchMmu.setPfcAShift,
      if_pos hport, Option.bind_eq_bind, Option.bind_some, Option.some_inj] at h
    subst h
    refine ⟨hport, ?_, fun i hi => ?_, ⟨rfl, rfl⟩⟩
    · constructor <;> simp only [Function.update_self]
      exact u32_of_lt (headroomBytes_lt fl edge)
    · constructor <;> simp only [Function.update_of_ne hi]
  · simp [configPort, SwitchMmu.configHdrm, if_neg hport] at h

theorem exists_configPort (fl : ℚ → ℚ) (baselineRateBps : Nat) (m : SwitchMmu)
    (hport : edge.ifIndex < pCnt) : ∃ m', configPort fl baselineRateBps m edge = some m' := by
  simp [configPort, SwitchMmu.configHdrm, SwitchMmu.configEcn, SwitchMmu.setPfcAShift, if_pos hport]

theorem configPorts_spec (hnodup : (edges.map QbbEdge.ifIndex).Nodup)
    (h : edges.foldlM (configPort fl baselineRateBps) m = some m') :
    (∀ e ∈ edges, e.ifIndex < pCnt ∧ IsSet fl baselineRateBps m' e) ∧
      (∀ i ∉ edges.map QbbEdge.ifIndex, SameAt m m' i) ∧ SameSizes m m' := by
  induction edges generalizing m with
  | nil =>
      cases h
      exact ⟨fun e he => (List.not_mem_nil he).elim, fun i _ => ⟨rfl, rfl, rfl, rfl, rfl⟩, ⟨rfl, rfl⟩⟩
  | cons e es ih =>
      rw [List.map_cons, List.nodup_cons] at hnodup
      rw [List.foldlM_cons] at h
      obtain ⟨m₁, hfirst, hrest⟩ := Option.bind_eq_some_iff.mp h
      obtain ⟨hport, hset, hsame, hsizes⟩ := configPort_spec hfirst
      obtain ⟨ihset, ihsame, ihsizes⟩ := ih hnodup.2 hrest
      refine ⟨?_, ?_, hsizes.trans ihsizes⟩
      · intro e' he'
        rcases List.mem_cons.mp he' with rfl | he'
        · exact ⟨hport, hset.of_sameAt (ihsame _ hnodup.1)⟩
        · exact ihset e' he'
      · intro i hi
        rw [List.map_cons, List.mem_cons, not_or] at hi
        exact (hsame i hi.1).trans (ihsame i hi.2)

theorem exists_configPorts (fl : ℚ → ℚ) (baselineRateBps : Nat) (m : SwitchMmu)
    (edges : List QbbEdge) (hports : ∀ e ∈ edges, e.ifIndex < pCnt) :
    ∃ m', edges.foldlM (configPort fl baselineRateBps) m = some m' := by
  induction edges generalizing m with
  | nil => exact ⟨m, rfl⟩
  | cons e es ih =>
      obtain ⟨m₁, hfirst⟩ := exists_configPort fl baselineRateBps m (hports e List.mem_cons_self)
      obtain ⟨m', hrest⟩ := ih m₁ fun e' he' => hports e' (List.mem_cons_of_mem _ he')
      exact ⟨m', by rw [List.foldlM_cons, hfirst]; exact hrest⟩

/-- The loop of `ConfigNPort` leaves the ports alone and adds up what stands at its indices. -/
theorem addPorts_spec {is : List Nat} (h : is.foldlM SwitchMmu.addPort m = some m') :
    (∀ i ∈ is, i < pCnt) ∧ m'.totalHdrm = u32 (m.totalHdrm + (is.map m.headroom).sum) ∧
      m'.totalRsrv = u32 (m.totalRsrv + is.length * m.reserve) ∧ (∀ i, SameAt m m' i) ∧
      SameSizes m m' := by
  induction is generalizing m with
  | nil =>
      cases h
      refine ⟨fun i hi => (List.not_mem_nil hi).elim, ?_, ?_, fun i => ⟨rfl, rfl, rfl, rfl, rfl⟩,
        ⟨rfl, rfl⟩⟩
      · simp [u32_of_lt m'.totalHdrm_lt]
      · simp [u32_of_lt m'.totalRsrv_lt]
  | cons i is ih =>
      rw [List.foldlM_cons] at h
      obtain ⟨m₁, hfirst, hrest⟩ := Option.bind_eq_some_iff.mp h
      by_cases hport : i < pCnt
      · rw [SwitchMmu.addPort, if_pos hport, Option.some_inj] at hfirst
        subst hfirst
        obtain ⟨ihport, ihhdrm, ihrsrv, ihsame, ihsizes⟩ := ih hrest
        refine ⟨?_, ?_, ?_, fun j => ⟨(ihsame j).1, (ihsame j).2, (ihsame j).3, (ihsame j).4,
          (ihsame j).5⟩, ⟨ihsizes.1, ihsizes.2⟩⟩
        · intro j hj
          rcases List.mem_cons.mp hj with rfl | hj
          · exact hport
          · exact ihport j hj
        · rw [ihhdrm, List.map_cons, List.sum_cons]
          simp only [u32, Nat.mod_add_mod, Nat.add_assoc]
        · rw [ihrsrv, List.length_cons, Nat.succ_mul]
          simp only [u32, Nat.mod_add_mod]
          congr 1
          omega
      · rw [SwitchMmu.addPort, if_neg hport] at hfirst
        cases hfirst

theorem exists_addPorts (m : SwitchMmu) {is : List Nat} (hports : ∀ i ∈ is, i < pCnt) :
    ∃ m', is.foldlM SwitchMmu.addPort m = some m' := by
  induction is generalizing m with
  | nil => exact ⟨m, rfl⟩
  | cons i is ih =>
      rw [List.foldlM_cons, SwitchMmu.addPort, if_pos (hports i List.mem_cons_self)]
      exact ih _ fun j hj => hports j (List.mem_cons_of_mem _ hj)

end

/-! ## The switches of a topology -/

section

variable (fl : ℚ → ℚ) (t : Topology)

/-- The smallest rate of all edges. -/
def baselineRateBps : Nat :=
  (t.nodes.flatMap t.adj).foldl (fun rate edge => min rate edge.rateBps) (2 ^ 64 - 1)

/-- The body of the loop of `ConfigureMmu` over the switches. -/
def configureSwitch (n : Nat) (m : SwitchMmu) : Option SwitchMmu :=
  if t.adj n = [] then some m
  else do
    let m ← (t.adj n).foldlM (configPort fl (baselineRateBps t)) m
    let m ← m.configNPort (u32 (t.adj n).length)
    return { m with nodeId := n }

/-- The memory management unit of a switch after `ConfigureMmu`, when `memory` is what its members
held before it was constructed. -/
def configureMmu (memory : Nat → SwitchMmu) (n : Nat) : Option SwitchMmu :=
  configureSwitch fl t n (memory n).construct

/-- The budgets are those of the ports of the switch, every port is set, and the budgets fit in the
buffer. -/
structure Covers (n : Nat) (m : SwitchMmu) : Prop where
  totalHdrm : m.totalHdrm = ((t.adj n).map fun edge => m.headroom edge.ifIndex).sum
  totalRsrv : m.totalRsrv = (t.adj n).length * m.reserve
  isSet : ∀ edge ∈ t.adj n, IsSet fl (baselineRateBps t) m edge
  fits : m.totalHdrm + m.totalRsrv ≤ m.bufferSize

/-- Every switch is covered, whatever memory held. -/
def CoversAll : Prop :=
  ∀ memory : Nat → SwitchMmu, ∀ n ∈ t.switches ++ t.nvswitches,
    ∃ m, configureMmu fl t memory n = some m ∧ Covers fl t n m

/-- The interfaces of a switch on qbb links are numbered from one on without a gap, there is one,
and their budgets fit in the buffer. -/
structure PortsFromOne (n : Nat) : Prop where
  connected : t.adj n ≠ []
  numbered : (t.adj n).map QbbEdge.ifIndex = List.range' 1 (t.adj n).length
  inArray : (t.adj n).length < pCnt
  fits : ((t.adj n).map (headroomBytes fl)).sum + (t.adj n).length * (4 * 1024) ≤ 12 * 1024 * 1024

end

section

variable {fl : ℚ → ℚ} {t : Topology} {n : Nat} {m m' : SwitchMmu}

theorem ifIndex_sorted (t : Topology) (n : Nat) :
    ((t.adj n).map QbbEdge.ifIndex).Pairwise (· < ·) := by
  have hzip : (t.devices n).zipIdx.Pairwise fun a b => a.2 < b.2 := by
    rw [← List.pairwise_map (f := Prod.snd) (R := (· < ·)), List.zipIdx_map_snd]
    exact List.pairwise_lt_range'
  rw [List.pairwise_map, Topology.adj, List.pairwise_filterMap]
  refine hzip.imp ?_
  intro a b hlt e he e' he'
  obtain ⟨q, -, rfl⟩ := Option.map_eq_some_iff.mp he
  obtain ⟨q', -, rfl⟩ := Option.map_eq_some_iff.mp he'
  exact hlt

theorem ifIndex_nodup (t : Topology) (n : Nat) : ((t.adj n).map QbbEdge.ifIndex).Nodup :=
  (ifIndex_sorted t n).imp Nat.ne_of_lt

theorem numbered_of_subset
    (h : ∀ i ∈ List.range' 1 (t.adj n).length, i ∈ (t.adj n).map QbbEdge.ifIndex) :
    (t.adj n).map QbbEdge.ifIndex = List.range' 1 (t.adj n).length := by
  have hperm : (List.range' 1 (t.adj n).length).Perm ((t.adj n).map QbbEdge.ifIndex) := by
    apply (List.Nodup.subperm List.nodup_range' h).perm_of_length_le
    rw [List.length_map, List.length_range']
  exact hperm.symm.eq_of_pairwise (fun a b _ _ hab hba => absurd hba (Nat.lt_asymm hab))
    (ifIndex_sorted t n) List.pairwise_lt_range'

theorem length_adj_le (h : ∀ e ∈ t.adj n, e.ifIndex < pCnt) : (t.adj n).length ≤ pCnt := by
  have hsub : ((t.adj n).map QbbEdge.ifIndex).toFinset ⊆ Finset.range pCnt := by
    intro i hi
    obtain ⟨e, he, rfl⟩ := List.mem_map.mp (List.mem_toFinset.mp hi)
    exact Finset.mem_range.mpr (h e he)
  have hcard := Finset.card_le_card hsub
  rwa [List.toFinset_card_of_nodup (ifIndex_nodup t n), List.length_map, Finset.card_range] at hcard

/-- What `ConfigureMmu` does to a switch with ports. -/
structure Configured (fl : ℚ → ℚ) (t : Topology) (n : Nat) (m m' : SwitchMmu) : Prop where
  isSet : ∀ e ∈ t.adj n, e.ifIndex < pCnt ∧ IsSet fl (baselineRateBps t) m' e
  inArray : ∀ i ∈ List.range' 1 (t.adj n).length, i < pCnt
  totalHdrm : m'.totalHdrm = u32 ((List.range' 1 (t.adj n).length).map m'.headroom).sum
  totalRsrv : m'.totalRsrv = u32 ((t.adj n).length * m.reserve)
  unset : ∀ i ∉ (t.adj n).map QbbEdge.ifIndex, m'.headroom i = m.headroom i
  sizes : SameSizes m m'

theorem configured_of_eq_some (hne : t.adj n ≠ []) (h : configureSwitch fl t n m = some m') :
    Configured fl t n m m' := by
  rw [configureSwitch, if_neg hne] at h
  obtain ⟨m₁, hports, h⟩ := Option.bind_eq_some_iff.mp h
  obtain ⟨m₂, htotal, h⟩ := Option.bind_eq_some_iff.mp h
  cases h
  obtain ⟨hset, hunset, hsizes⟩ := configPorts_spec (ifIndex_nodup t n) hports
  have hlen := length_adj_le fun e he => (hset e he).1
  rw [pCnt_eq] at hlen
  rw [u32_of_lt (by omega), SwitchMmu.configNPort] at htotal
  obtain ⟨harray, hhdrm, hrsrv, hsame, hsizes'⟩ := addPorts_spec htotal
  have hkeep : ∀ i, SameAt m₁ m₂ i := fun i =>
    ⟨(hsame i).headroom, (hsame i).pfcAShift, (hsame i).kmin, (hsame i).kmax, (hsame i).pmax⟩
  refine ⟨?_, harray, ?_, ?_, ?_, ?_⟩
  · intro e he
    obtain ⟨hport, his⟩ := hset e he
    have his' := his.of_sameAt (hkeep e.ifIndex)
    exact ⟨hport, his'.headroom, his'.pfcAShift, his'.kmin, his'.kmax, his'.pmax⟩
  · have hcongr : (List.range' 1 (t.adj n).length).map m₁.headroom =
        (List.range' 1 (t.adj n).length).map m₂.headroom :=
      List.map_congr_left fun i _ => (hkeep i).headroom.symm
    rw [← hcongr, hhdrm]
    exact congrArg u32 (Nat.zero_add _)
  · rw [hrsrv, List.length_range', ← hsizes.reserve]
    exact congrArg u32 (Nat.zero_add _)
  · intro i hi
    exact (hkeep i).headroom.trans (hunset i hi).headroom
  · exact ⟨hsizes'.bufferSize.trans hsizes.bufferSize, hsizes'.reserve.trans hsizes.reserve⟩

theorem exists_configureSwitch (fl : ℚ → ℚ) (m : SwitchMmu)
    (hnum : (t.adj n).map QbbEdge.ifIndex = List.range' 1 (t.adj n).length)
    (hlen : (t.adj n).length < pCnt) : ∃ m', configureSwitch fl t n m = some m' := by
  have hindex : ∀ i ∈ List.range' 1 (t.adj n).length, i < pCnt := by
    intro i hi
    rw [List.mem_range'_1] at hi
    omega
  obtain ⟨m₁, hports⟩ := exists_configPorts fl (baselineRateBps t) m (t.adj n)
    fun e he => hindex _ (hnum ▸ List.mem_map_of_mem he)
  obtain ⟨m₂, htotal⟩ := exists_addPorts m₁.clearTotals hindex
  have hsmall : (t.adj n).length < 2 ^ 32 := by
    rw [pCnt_eq] at hlen
    omega
  by_cases hne : t.adj n = []
  · exact ⟨m, by rw [configureSwitch, if_pos hne]⟩
  · refine ⟨{ m₂ with nodeId := n }, ?_⟩
    rw [configureSwitch, if_neg hne, hports, Option.bind_eq_bind, Option.bind_some,
      u32_of_lt hsmall, SwitchMmu.configNPort, htotal]
    rfl

theorem headroom_sum (h : ∀ e ∈ t.adj n, IsSet fl (baselineRateBps t) m e) :
    ((t.adj n).map fun e => m.headroom e.ifIndex).sum =
      ((t.adj n).map (headroomBytes fl)).sum :=
  congrArg List.sum (List.map_congr_left fun e he => (h e he).headroom)

/-- Memory that is zero. -/
def SwitchMmu.blank : SwitchMmu where
  bufferSize := 0
  pfcAShift := fun _ => 0
  reserve := 0
  headroom := fun _ => 0
  resumeOffset := 0
  totalHdrm := 0
  totalRsrv := 0
  bufferSize_lt := by decide
  reserve_lt := by decide
  headroom_lt := fun _ => by decide
  totalHdrm_lt := by decide
  totalRsrv_lt := by decide
  nodeId := 0
  kmin := fun _ => 0
  kmax := fun _ => 0
  pmax := fun _ => 0

/-- Memory in which only `headroom[i]` is one. -/
def SwitchMmu.stale (i : Nat) : SwitchMmu :=
  { SwitchMmu.blank with
    headroom := fun j => if j = i then 1 else 0
    headroom_lt := fun j => by
      by_cases h : j = i <;> simp [h] }

theorem connected_of_coversAll (h : CoversAll fl t) (hn : n ∈ t.switches ++ t.nvswitches) :
    t.adj n ≠ [] := by
  intro hnil
  obtain ⟨m, hm, hcovers⟩ :=
    h (fun _ => { SwitchMmu.blank with totalHdrm := 1, totalHdrm_lt := by decide }) n hn
  rw [configureMmu, configureSwitch, if_pos hnil] at hm
  cases hm
  have htotal := hcovers.totalHdrm
  rw [hnil] at htotal
  exact Nat.one_ne_zero htotal

/-- An index that `ConfigNPort` adds up and no port has brings in what memory held. -/
theorem numbered_of_coversAll (h : CoversAll fl t) (hn : n ∈ t.switches ++ t.nvswitches) :
    (t.adj n).map QbbEdge.ifIndex = List.range' 1 (t.adj n).length := by
  apply numbered_of_subset
  intro i hi
  by_contra hport
  have hne := connected_of_coversAll h hn
  obtain ⟨m, hm, hcovers⟩ := h (fun _ => .blank) n hn
  obtain ⟨m', hm', hcovers'⟩ := h (fun _ => .stale i) n hn
  have hconf := configured_of_eq_some hne hm
  have hconf' := configured_of_eq_some hne hm'
  have hrest : ((List.range' 1 (t.adj n).length).erase i).map m'.headroom =
      ((List.range' 1 (t.adj n).length).erase i).map m.headroom := by
    apply List.map_congr_left
    intro j hj
    have hji : j ≠ i := ((List.Nodup.mem_erase_iff List.nodup_range').mp hj).1
    by_cases hjport : j ∈ (t.adj n).map QbbEdge.ifIndex
    · obtain ⟨e, he, rfl⟩ := List.mem_map.mp hjport
      rw [(hcovers.isSet e he).headroom, (hcovers'.isSet e he).headroom]
    · rw [hconf.unset j hjport, hconf'.unset j hjport]
      exact if_neg hji
  have hzero : m.headroom i = 0 := hconf.unset i hport
  have hone : m'.headroom i = 1 := (hconf'.unset i hport).trans (if_pos rfl)
  have htotal : m'.totalHdrm = m.totalHdrm := by
    rw [hcovers.totalHdrm, hcovers'.totalHdrm, headroom_sum hcovers.isSet,
      headroom_sum hcovers'.isSet]
  rw [hconf.totalHdrm, hconf'.totalHdrm, ← List.sum_map_erase _ hi, ← List.sum_map_erase _ hi,
    hrest, hzero, hone, u32, u32] at htotal
  omega

theorem portsFromOne_of_coversAll (h : CoversAll fl t) (hn : n ∈ t.switches ++ t.nvswitches) :
    PortsFromOne fl t n := by
  have hne := connected_of_coversAll h hn
  obtain ⟨m, hm, hcovers⟩ := h (fun _ => .blank) n hn
  have hconf := configured_of_eq_some hne hm
  have hpos := List.length_pos_iff.mpr hne
  refine ⟨hne, numbered_of_coversAll h hn, ?_, ?_⟩
  · apply hconf.inArray
    rw [List.mem_range'_1]
    omega
  · have hfits := hcovers.fits
    rw [hcovers.totalHdrm, headroom_sum hcovers.isSet, hcovers.totalRsrv, hconf.sizes.reserve,
      hconf.sizes.bufferSize] at hfits
    exact hfits

/-- With ports from one on, what memory held does not matter. -/
theorem PortsFromOne.covers (h : PortsFromOne fl t n) (memory : Nat → SwitchMmu) :
    ∃ m, configureMmu fl t memory n = some m ∧ Covers fl t n m := by
  obtain ⟨m, hm⟩ := exists_configureSwitch fl (memory n).construct h.numbered h.inArray
  have hconf := configured_of_eq_some h.connected hm
  have hset : ∀ e ∈ t.adj n, IsSet fl (baselineRateBps t) m e := fun e he => (hconf.isSet e he).2
  have hfits := h.fits
  have hreserve : m.reserve = 4 * 1024 := hconf.sizes.reserve
  have hbuffer : m.bufferSize = 12 * 1024 * 1024 := hconf.sizes.bufferSize
  have hhdrm : m.totalHdrm = ((t.adj n).map fun e => m.headroom e.ifIndex).sum := by
    rw [hconf.totalHdrm, ← h.numbered, List.map_map]
    apply u32_of_lt
    change ((t.adj n).map fun e => m.headroom e.ifIndex).sum < 2 ^ 32
    rw [headroom_sum hset]
    omega
  have hrsrv : m.totalRsrv = (t.adj n).length * m.reserve := by
    rw [hconf.totalRsrv, hreserve]
    apply u32_of_lt
    change (t.adj n).length * (4 * 1024) < 2 ^ 32
    omega
  refine ⟨m, hm, hhdrm, hrsrv, hset, ?_⟩
  rw [hhdrm, headroom_sum hset, hrsrv, hreserve, hbuffer]
  exact hfits

/-- The totals are the budgets that the occupancy of the buffer is bounded by. -/
theorem PortsFromOne.budgets (h : PortsFromOne fl t n) {memory : Nat → SwitchMmu}
    (hm : configureMmu fl t memory n = some m) :
    m.totalHdrm + m.totalRsrv ≤ m.bufferSize ∧
      ∑ port ∈ Finset.Icc 1 (t.adj n).length, m.headroom port ≤ m.totalHdrm ∧
      ∑ _port ∈ Finset.Icc 1 (t.adj n).length, m.reserve ≤ m.totalRsrv := by
  obtain ⟨m', hm', hcovers⟩ := h.covers memory
  have heq : m' = m := Option.some_inj.mp (hm'.symm.trans hm)
  subst heq
  refine ⟨hcovers.fits, ?_, ?_⟩
  · have hlist : ∑ port ∈ Finset.Icc 1 (t.adj n).length, m'.headroom port =
        ((List.range' 1 (t.adj n).length).map m'.headroom).sum := by
      rw [Nat.Icc_eq_range']
      rfl
    rw [hlist, hcovers.totalHdrm, ← h.numbered, List.map_map]
    exact Nat.le_refl _
  · rw [Finset.sum_const, Nat.card_Icc, Nat.add_sub_cancel, hcovers.totalRsrv, smul_eq_mul]

/-- Every switch is covered exactly when the ports of every switch count from one, where the
configuration sums, and have room for their budgets in the buffer. -/
theorem coversAll_iff (fl : ℚ → ℚ) (t : Topology) :
    CoversAll fl t ↔ ∀ n ∈ t.switches ++ t.nvswitches, PortsFromOne fl t n := by
  constructor
  · intro h n hn
    exact portsFromOne_of_coversAll h hn
  · intro h memory n hn
    exact (h n hn).covers memory

end

/-- Three GPUs on a switch. -/
def threeNodes : Topology :=
  .ofLinks [0, 1, 2] [3] [] [(0, 3), (1, 3), (2, 3)] (by decide) (by decide)

/-- The first port of a switch is number zero, which is not among those that are added up. -/
theorem threeNodes_not_coversAll :
    (threeNodes.adj 3).map QbbEdge.ifIndex = [0, 1, 2] ∧ ∀ fl, ¬ CoversAll fl threeNodes := by
  refine ⟨by decide, fun fl h => ?_⟩
  have hnum := numbered_of_coversAll (n := 3) h (by decide)
  exact absurd hnum (by decide)

end CollectiveSim.Switch
