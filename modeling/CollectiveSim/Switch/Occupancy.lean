import Mathlib
import CollectiveSim.Switch.Accounting

/-!
# How full the buffer gets

The shared pool stays inside what the configuration leaves to it, and the threshold keeps it there.
Reserve and headroom are budgeted for each port and taken by each queue, so the whole buffer is
bounded only while the queues together take no more than the totals.
-/

open scoped BigOperators

namespace CollectiveSim.Switch

open Framework

namespace Pool

variable {cfg : MmuConfig}

theorem inv_of_run {ok : Pool → Event → Prop} (hok : ∀ s a, ok s a → AdmissionFits cfg s a)
    {as : List Event} {s : Pool} (h : Run (step cfg) ok initial as s) : Inv cfg s :=
  h.invariant (fun s a _ hinv ha hstep => hinv.step (hok s a ha) hstep) (initial_inv cfg)

theorem sharedPool_eq (hfit : cfg.totalHdrm + cfg.totalRsrv ≤ cfg.bufferSize) :
    cfg.sharedPool = cfg.bufferSize - cfg.totalHdrm - cfg.totalRsrv := by
  have hbuf := cfg.bufferSize_lt
  rw [MmuConfig.sharedPool, sub32_of_le (by omega) hbuf, sub32_of_le (by omega) (by omega)]

/-- The subtraction in `GetPfcThreshold` does not go below zero in a run whose admissions fit. -/
theorem sharedUsed_le (cfg : MmuConfig) (hfit : cfg.totalHdrm + cfg.totalRsrv ≤ cfg.bufferSize)
    (as : List Event) (s : Pool) (h : Run (step cfg) (AdmissionFits cfg) initial as s) :
    cfg.totalHdrm + cfg.totalRsrv + s.mmu.sharedUsedBytes ≤ cfg.bufferSize := by
  have hle := (inv_of_run (fun _ _ h => h) h).sound.shared_le
  rw [sharedPool_eq hfit] at hle
  omega

theorem halfCounter_sharedUsed_le : ∃ t, Run (step allHeadroom) (AdmissionFits allHeadroom) initial
      [.accept halfCounter, .release halfCounter] t ∧
    allHeadroom.totalHdrm + allHeadroom.totalRsrv + t.mmu.sharedUsedBytes ≤
      allHeadroom.bufferSize := by
  obtain ⟨t, hrun, -⟩ := exists_run (step allHeadroom) (AdmissionFits allHeadroom) (fun _ => True)
    initial [.accept halfCounter, .release halfCounter] (by decide +kernel)
  exact ⟨t, hrun, sharedUsed_le allHeadroom (by decide) _ t hrun⟩

/-- Two packets wrap the headroom counter to zero; releasing them takes from a shared pool they
never used. -/
theorem not_sharedUsed_le :
    ¬ ∀ (cfg : MmuConfig) (as : List Event) (s : Pool),
      cfg.totalHdrm + cfg.totalRsrv ≤ cfg.bufferSize → Run (step cfg) anyEvent initial as s →
        cfg.totalHdrm + cfg.totalRsrv + s.mmu.sharedUsedBytes ≤ cfg.bufferSize := by
  intro hall
  obtain ⟨s, hrun, hover⟩ := exists_run (step allHeadroom) anyEvent
    (fun s => ¬ allHeadroom.totalHdrm + allHeadroom.totalRsrv + s.mmu.sharedUsedBytes ≤
      allHeadroom.bufferSize)
    initial [.accept halfCounter, .accept halfCounter, .release halfCounter, .release halfCounter]
    (by decide +kernel)
  exact hover (hall _ _ _ (by decide) hrun)

end Pool

namespace Mmu

variable {cfg : MmuConfig} {m : Mmu} {f g : Nat × Nat → Nat}

/-- The cells of one port. -/
def portCells (port : Nat) : Finset (Nat × Nat) := cells.filter fun k => k.1 = port

theorem mem_portCells {k : Nat × Nat} {port : Nat} :
    k ∈ portCells port ↔ k ∈ cells ∧ k.1 = port := Finset.mem_filter

/-- The reserve bytes that the queues of a port hold together. -/
def reserveHeld (cfg : MmuConfig) (m : Mmu) (port : Nat) : Nat :=
  ∑ k ∈ portCells port, min (m.ingressBytes k) cfg.reserve

/-- The headroom bytes that the queues of a port hold together. -/
def hdrmHeld (m : Mmu) (port : Nat) : Nat := ∑ k ∈ portCells port, m.hdrmBytes k

/-- All bytes that the counters hold. -/
def occupancy (m : Mmu) : Nat := ∑ k ∈ cells, (m.ingressBytes k + m.hdrmBytes k)

theorem sum_portCells (c : Nat × Nat → Nat) :
    ∑ port ∈ Finset.range pCnt, ∑ k ∈ portCells port, c k = ∑ k ∈ cells, c k := by
  apply Finset.sum_fiberwise_of_maps_to
  intro k hk
  exact Finset.mem_range.mpr (mem_cells.mp hk).1

/-- Every byte is held in the reserve, in the shared pool or in the headroom. -/
theorem occupancy_eq (hacc : Accounts cfg m f g) :
    m.occupancy = ∑ port ∈ Finset.range pCnt, m.reserveHeld cfg port + m.sharedUsedBytes +
      ∑ port ∈ Finset.range pCnt, m.hdrmHeld port := by
  simp only [reserveHeld, hdrmHeld, sum_portCells]
  rw [occupancy, hacc.shared, ← Finset.sum_add_distrib, ← Finset.sum_add_distrib]
  apply Finset.sum_congr rfl
  intro k _
  omega

/-- The reserve bytes that an admission adds to its port. -/
def reservePart (cfg : MmuConfig) (m : Mmu) (port qIndex psize : Nat) : Nat :=
  if m.ToHeadroom cfg port qIndex psize then 0
  else min psize (cfg.reserve - m.ingressBytes (port, qIndex))

/-- The headroom bytes that an admission adds to its port. -/
def hdrmPart (cfg : MmuConfig) (m : Mmu) (port qIndex psize : Nat) : Nat :=
  if m.ToHeadroom cfg port qIndex psize then psize else 0

/-- What all ports hold in reserve. -/
def allReserve (cfg : MmuConfig) (m : Mmu) : Nat :=
  ∑ port ∈ Finset.range pCnt, m.reserveHeld cfg port

/-- What all ports hold in headroom. -/
def allHdrm (m : Mmu) : Nat := ∑ port ∈ Finset.range pCnt, m.hdrmHeld port

/-- With the packet all ports together hold no more reserve and headroom than the totals. -/
def WithinTotals (cfg : MmuConfig) (m : Mmu) (port qIndex psize : Nat) : Prop :=
  m.allReserve cfg + m.reservePart cfg port qIndex psize ≤ cfg.totalRsrv ∧
    m.allHdrm + m.hdrmPart cfg port qIndex psize ≤ cfg.totalHdrm

/-- A packet is inside the budget of its port: the port is one of the `nPort` that `ConfigNPort`
adds up, and its queues together hold no more than one reserve and one headroom. -/
def WithinBudget (cfg : MmuConfig) (nPort : Nat) (m : Mmu) (port qIndex psize : Nat) : Prop :=
  (1 ≤ port ∧ port ≤ nPort) ∧
    m.reserveHeld cfg port + m.reservePart cfg port qIndex psize ≤ cfg.reserve ∧
    m.hdrmHeld port + m.hdrmPart cfg port qIndex psize ≤ cfg.headroom port

/-- No port holds more than its budget, and a port without a budget holds nothing. -/
structure Budgeted (cfg : MmuConfig) (nPort : Nat) (m : Mmu) : Prop where
  reserve : ∀ port, m.reserveHeld cfg port ≤
    if 1 ≤ port ∧ port ≤ nPort then cfg.reserve else 0
  headroom : ∀ port, m.hdrmHeld port ≤
    if 1 ≤ port ∧ port ≤ nPort then cfg.headroom port else 0

theorem initial_budgeted (cfg : MmuConfig) (nPort : Nat) : Budgeted cfg nPort initial := by
  constructor <;> intro port <;> simp [reserveHeld, hdrmHeld, initial]

theorem initial_allReserve (cfg : MmuConfig) : initial.allReserve cfg = 0 := by
  simp [allReserve, reserveHeld, initial]

theorem initial_allHdrm : initial.allHdrm = 0 := by
  simp [allHdrm, hdrmHeld, initial]

/-- What the first `nPort` ports are budgeted bounds what all ports hold. -/
theorem sum_held_le {nPort : Nat} {held budget : Nat → Nat}
    (h : ∀ port, held port ≤ if 1 ≤ port ∧ port ≤ nPort then budget port else 0) :
    ∑ port ∈ Finset.range pCnt, held port ≤ ∑ port ∈ Finset.Icc 1 nPort, budget port := by
  calc ∑ port ∈ Finset.range pCnt, held port
      ≤ ∑ port ∈ Finset.range pCnt, if 1 ≤ port ∧ port ≤ nPort then budget port else 0 :=
        Finset.sum_le_sum fun port _ => h port
    _ = ∑ port ∈ Finset.range pCnt with 1 ≤ port ∧ port ≤ nPort, budget port :=
        (Finset.sum_filter _ _).symm
    _ ≤ ∑ port ∈ Finset.Icc 1 nPort, budget port := by
        apply Finset.sum_le_sum_of_subset
        intro port hport
        exact Finset.mem_Icc.mpr (Finset.mem_filter.mp hport).2

variable {inDev outDev qIndex psize nPort : Nat}

theorem reserveHeld_update (cfg : MmuConfig) (m : Mmu) (hcell : (inDev, qIndex) ∈ cells) (v : Nat) :
    ∑ k ∈ portCells inDev, min (Function.update m.ingressBytes (inDev, qIndex) v k) cfg.reserve +
        min (m.ingressBytes (inDev, qIndex)) cfg.reserve =
      m.reserveHeld cfg inDev + min v cfg.reserve :=
  sum_update_entry (mem_portCells.mpr ⟨hcell, rfl⟩) (fun n => min n cfg.reserve) m.ingressBytes v

theorem hdrmHeld_update (m : Mmu) (hcell : (inDev, qIndex) ∈ cells) (v : Nat) :
    ∑ k ∈ portCells inDev, Function.update m.hdrmBytes (inDev, qIndex) v k +
        m.hdrmBytes (inDev, qIndex) = m.hdrmHeld inDev + v :=
  sum_update_entry (mem_portCells.mpr ⟨hcell, rfl⟩) (fun n => n) m.hdrmBytes v

theorem update_of_mem_portCells {port v : Nat} {c : Nat × Nat → Nat} {k : Nat × Nat}
    (hk : k ∈ portCells port) (hne : port ≠ inDev) :
    Function.update c (inDev, qIndex) v k = c k := by
  apply Function.update_of_ne
  rintro rfl
  exact hne (mem_portCells.mp hk).2.symm

theorem held_accept (h : Sound cfg m f g) (outDev : Nat) (hcell : (inDev, qIndex) ∈ cells)
    (hfits : AdmissionFits cfg m inDev qIndex psize) :
    (m.accept cfg inDev outDev qIndex psize).reserveHeld cfg inDev =
        m.reserveHeld cfg inDev + m.reservePart cfg inDev qIndex psize ∧
      (m.accept cfg inDev outDev qIndex psize).hdrmHeld inDev =
        m.hdrmHeld inDev + m.hdrmPart cfg inDev qIndex psize := by
  rw [AdmissionFits] at hfits
  rw [accept, reservePart, hdrmPart]
  by_cases hto : m.ToHeadroom cfg inDev qIndex psize
  · rw [if_pos hto] at hfits
    have hupd := hdrmHeld_update m hcell (m.hdrmBytes (inDev, qIndex) + psize)
    rw [updateIngressAdmission_of_toHeadroom hto, u32_of_lt hfits, if_pos hto, if_pos hto]
    refine ⟨rfl, ?_⟩
    simp only [hdrmHeld, updateEgressAdmission_hdrmBytes] at hupd ⊢
    omega
  · rw [if_neg hto] at hfits
    have hupd := reserveHeld_update cfg m hcell
      (m.ingressBytes (inDev, qIndex) + psize)
    rw [updateIngressAdmission_of_not_toHeadroom hto h.shared_lt, u32_of_lt hfits, if_neg hto,
      if_neg hto]
    refine ⟨?_, rfl⟩
    simp only [reserveHeld, updateEgressAdmission_ingressBytes] at hupd ⊢
    omega

theorem held_accept_of_ne (h : Sound cfg m f g) {port : Nat} (hne : port ≠ inDev) :
    (m.accept cfg inDev outDev qIndex psize).reserveHeld cfg port = m.reserveHeld cfg port ∧
      (m.accept cfg inDev outDev qIndex psize).hdrmHeld port = m.hdrmHeld port := by
  rw [accept]
  by_cases hto : m.ToHeadroom cfg inDev qIndex psize
  · rw [updateIngressAdmission_of_toHeadroom hto]
    refine ⟨rfl, Finset.sum_congr rfl fun k hk => ?_⟩
    exact update_of_mem_portCells hk hne
  · rw [updateIngressAdmission_of_not_toHeadroom hto h.shared_lt]
    refine ⟨Finset.sum_congr rfl fun k hk => ?_, rfl⟩
    simp only [updateEgressAdmission_ingressBytes]
    rw [update_of_mem_portCells hk hne]

theorem sum_held_eq {held held' : Nat → Nat} {part : Nat} (hport : inDev ∈ Finset.range pCnt)
    (hown : held' inDev = held inDev + part) (hothers : ∀ port ≠ inDev, held' port = held port) :
    ∑ port ∈ Finset.range pCnt, held' port = ∑ port ∈ Finset.range pCnt, held port + part := by
  have hrest : ∑ port ∈ (Finset.range pCnt).erase inDev, held' port =
      ∑ port ∈ (Finset.range pCnt).erase inDev, held port :=
    Finset.sum_congr rfl fun port hmem => hothers port (Finset.ne_of_mem_erase hmem)
  rw [← Finset.add_sum_erase _ held' hport, ← Finset.add_sum_erase _ held hport, hrest, hown]
  omega

theorem all_accept (h : Sound cfg m f g) (outDev : Nat) (hcell : (inDev, qIndex) ∈ cells)
    (hfits : AdmissionFits cfg m inDev qIndex psize) :
    (m.accept cfg inDev outDev qIndex psize).allReserve cfg =
        m.allReserve cfg + m.reservePart cfg inDev qIndex psize ∧
      (m.accept cfg inDev outDev qIndex psize).allHdrm =
        m.allHdrm + m.hdrmPart cfg inDev qIndex psize := by
  have hport : inDev ∈ Finset.range pCnt := Finset.mem_range.mpr (mem_cells.mp hcell).1
  obtain ⟨hr, hh⟩ := held_accept h outDev hcell hfits
  exact ⟨sum_held_eq hport hr fun _ hne => (held_accept_of_ne h hne).1,
    sum_held_eq hport hh fun _ hne => (held_accept_of_ne h hne).2⟩

theorem Budgeted.accept (hb : Budgeted cfg nPort m) (h : Sound cfg m f g)
    (hcell : (inDev, qIndex) ∈ cells) (hfits : AdmissionFits cfg m inDev qIndex psize)
    (hwithin : WithinBudget cfg nPort m inDev qIndex psize) :
    Budgeted cfg nPort (m.accept cfg inDev outDev qIndex psize) := by
  obtain ⟨hport, hreserve, hhdrm⟩ := hwithin
  obtain ⟨hr, hh⟩ := held_accept h outDev hcell hfits
  constructor
  · intro port
    by_cases heq : port = inDev
    · rw [heq, hr, if_pos hport]
      exact hreserve
    · rw [(held_accept_of_ne h heq).1]
      exact hb.reserve port
  · intro port
    by_cases heq : port = inDev
    · rw [heq, hh, if_pos hport]
      exact hhdrm
    · rw [(held_accept_of_ne h heq).2]
      exact hb.headroom port

theorem release_le (hfit : RemovalFits cfg m inDev outDev qIndex psize)
    (hi : m.ingressBytes (inDev, qIndex) < 2 ^ 32) (hh : m.hdrmBytes (inDev, qIndex) < 2 ^ 32)
    (k : Nat × Nat) :
    (m.release cfg inDev outDev qIndex psize).ingressBytes k ≤ m.ingressBytes k ∧
      (m.release cfg inDev outDev qIndex psize).hdrmBytes k ≤ m.hdrmBytes k := by
  rw [release, removeFromIngressAdmission, removeFromEgressAdmission,
    sub32_of_le hfit.hdrm hh, sub32_of_le hfit.ingress hi]
  by_cases heq : k = (inDev, qIndex)
  · subst heq
    simp only [Function.update_self]
    exact ⟨Nat.sub_le _ _, Nat.sub_le _ _⟩
  · simp only [Function.update_of_ne heq]
    exact ⟨Nat.le_refl _, Nat.le_refl _⟩

theorem all_release_le (hfit : RemovalFits cfg m inDev outDev qIndex psize)
    (hi : m.ingressBytes (inDev, qIndex) < 2 ^ 32) (hh : m.hdrmBytes (inDev, qIndex) < 2 ^ 32) :
    (m.release cfg inDev outDev qIndex psize).allReserve cfg ≤ m.allReserve cfg ∧
      (m.release cfg inDev outDev qIndex psize).allHdrm ≤ m.allHdrm := by
  have hle := release_le hfit hi hh
  constructor
  · exact Finset.sum_le_sum fun _ _ => Finset.sum_le_sum fun k _ => min_le_min_right _ (hle k).1
  · exact Finset.sum_le_sum fun _ _ => Finset.sum_le_sum fun k _ => (hle k).2

theorem Budgeted.release (hb : Budgeted cfg nPort m)
    (hfit : RemovalFits cfg m inDev outDev qIndex psize)
    (hi : m.ingressBytes (inDev, qIndex) < 2 ^ 32) (hh : m.hdrmBytes (inDev, qIndex) < 2 ^ 32) :
    Budgeted cfg nPort (m.release cfg inDev outDev qIndex psize) := by
  have hle := release_le hfit hi hh
  constructor
  · intro port
    refine Nat.le_trans (Finset.sum_le_sum fun k _ => ?_) (hb.reserve port)
    exact min_le_min_right _ (hle k).1
  · intro port
    exact Nat.le_trans (Finset.sum_le_sum fun k _ => (hle k).2) (hb.headroom port)

theorem Budgeted.withinTotals (hb : Budgeted cfg nPort m) (h : Sound cfg m f g) (outDev : Nat)
    (hhdrm : ∑ port ∈ Finset.Icc 1 nPort, cfg.headroom port ≤ cfg.totalHdrm)
    (hrsrv : ∑ _port ∈ Finset.Icc 1 nPort, cfg.reserve ≤ cfg.totalRsrv)
    (hcell : (inDev, qIndex) ∈ cells) (hfits : AdmissionFits cfg m inDev qIndex psize)
    (hwithin : WithinBudget cfg nPort m inDev qIndex psize) :
    WithinTotals cfg m inDev qIndex psize := by
  have hnext : Budgeted cfg nPort (m.accept cfg inDev outDev qIndex psize) :=
    hb.accept h hcell hfits hwithin
  obtain ⟨hr, hh⟩ := all_accept h outDev hcell hfits
  exact ⟨hr.symm.trans_le ((sum_held_le hnext.reserve).trans hrsrv),
    hh.symm.trans_le ((sum_held_le hnext.headroom).trans hhdrm)⟩

end Mmu

namespace Pool

variable {cfg : MmuConfig}

/-- The admission of a packet fits in its counter, and all ports together stay within the totals. -/
def StaysInTotals (cfg : MmuConfig) (s : Pool) (a : Event) : Prop :=
  AdmissionFits cfg s a ∧
    match a with
    | .accept p => s.mmu.WithinTotals cfg p.inDev p.qIndex p.size
    | .release _ => True

theorem totals_step {s t : Pool} {a : Event} (hinv : Inv cfg s)
    (hs : s.mmu.allReserve cfg ≤ cfg.totalRsrv ∧ s.mmu.allHdrm ≤ cfg.totalHdrm)
    (hok : StaysInTotals cfg s a) (hstep : step cfg s a = some t) :
    t.mmu.allReserve cfg ≤ cfg.totalRsrv ∧ t.mmu.allHdrm ≤ cfg.totalHdrm := by
  cases a with
  | accept p =>
      obtain ⟨hidx, -, rfl⟩ := accept_of_step hstep
      obtain ⟨hr, hh⟩ := Mmu.all_accept hinv.sound p.outDev hidx.1 hok.1
      exact ⟨hr.trans_le hok.2.1, hh.trans_le hok.2.2⟩
  | release p =>
      obtain ⟨hp, rfl⟩ := release_of_step hstep
      have hin := (hinv.indexed p hp).1
      obtain ⟨hr, hh⟩ := Mmu.all_release_le (hinv.accounted.removal p hp)
        (hinv.sound.ingress_lt _ hin) (hinv.sound.hdrm_lt hin)
      exact ⟨hr.trans hs.1, hh.trans hs.2⟩

/-- The buffer is never overfull in a run that keeps the reserve and the headroom that all ports hold
within the totals. -/
theorem occupancy_le (cfg : MmuConfig) (hfit : cfg.totalHdrm + cfg.totalRsrv ≤ cfg.bufferSize)
    (as : List Event) (s : Pool) (h : Run (step cfg) (StaysInTotals cfg) initial as s) :
    s.mmu.occupancy ≤ cfg.bufferSize := by
  have hboth : Inv cfg s ∧
      s.mmu.allReserve cfg ≤ cfg.totalRsrv ∧ s.mmu.allHdrm ≤ cfg.totalHdrm := by
    apply h.invariant
    · intro s a t hinv hok hstep
      exact ⟨hinv.1.step hok.1 hstep, totals_step hinv.1 hinv.2 hok hstep⟩
    · refine ⟨initial_inv cfg, ?_, ?_⟩
      · exact (Mmu.initial_allReserve cfg).trans_le (Nat.zero_le _)
      · exact Mmu.initial_allHdrm.trans_le (Nat.zero_le _)
  obtain ⟨hinv, hreserve, hheadroom⟩ := hboth
  have hshared := hinv.sound.shared_le
  rw [sharedPool_eq hfit] at hshared
  rw [Mmu.occupancy_eq hinv.sound.toAccounts]
  rw [Mmu.allReserve] at hreserve
  rw [Mmu.allHdrm] at hheadroom
  omega

/-- The admission of a packet fits in its counter and in the budget of its port. -/
def StaysInBudget (cfg : MmuConfig) (nPort : Nat) (s : Pool) (a : Event) : Prop :=
  AdmissionFits cfg s a ∧
    match a with
    | .accept p => s.mmu.WithinBudget cfg nPort p.inDev p.qIndex p.size
    | .release _ => True

theorem budgeted_step {nPort : Nat} {s t : Pool} {a : Event} (hinv : Inv cfg s)
    (hb : s.mmu.Budgeted cfg nPort) (hok : StaysInBudget cfg nPort s a)
    (hstep : step cfg s a = some t) : t.mmu.Budgeted cfg nPort := by
  cases a with
  | accept p =>
      obtain ⟨hidx, -, rfl⟩ := accept_of_step hstep
      exact hb.accept hinv.sound hidx.1 hok.1 hok.2
  | release p =>
      obtain ⟨hp, rfl⟩ := release_of_step hstep
      have hin := (hinv.indexed p hp).1
      exact hb.release (hinv.accounted.removal p hp) (hinv.sound.ingress_lt _ hin)
        (hinv.sound.hdrm_lt hin)

theorem staysInTotals_of_budgeted {nPort : Nat}
    (hhdrm : ∑ port ∈ Finset.Icc 1 nPort, cfg.headroom port ≤ cfg.totalHdrm)
    (hrsrv : ∑ _port ∈ Finset.Icc 1 nPort, cfg.reserve ≤ cfg.totalRsrv) {s t : Pool}
    {as : List Event} (hinv : Inv cfg s) (hb : s.mmu.Budgeted cfg nPort)
    (h : Run (step cfg) (StaysInBudget cfg nPort) s as t) :
    Run (step cfg) (StaysInTotals cfg) s as t := by
  induction h with
  | nil s => exact .nil s
  | @cons s u t a as hok hstep _ ih =>
      refine .cons ⟨hok.1, ?_⟩ hstep (ih (hinv.step hok.1 hstep) (budgeted_step hinv hb hok hstep))
      cases a with
      | accept p =>
          obtain ⟨hidx, -, -⟩ := accept_of_step hstep
          exact hb.withinTotals hinv.sound p.outDev hhdrm hrsrv hidx.1 hok.1 hok.2
      | release p => trivial

/-- A run that keeps each of the `nPort` ports that `ConfigNPort` adds up within its budget stays within
the totals. -/
theorem staysInTotals_of_budget {nPort : Nat}
    (hhdrm : ∑ port ∈ Finset.Icc 1 nPort, cfg.headroom port ≤ cfg.totalHdrm)
    (hrsrv : ∑ _port ∈ Finset.Icc 1 nPort, cfg.reserve ≤ cfg.totalRsrv) {t : Pool}
    {as : List Event} (h : Run (step cfg) (StaysInBudget cfg nPort) initial as t) :
    Run (step cfg) (StaysInTotals cfg) initial as t :=
  staysInTotals_of_budgeted hhdrm hrsrv (initial_inv cfg) (Mmu.initial_budgeted cfg nPort) h

/-- One port of 1000 bytes of headroom, and no shared pool. -/
def onePort : MmuConfig where
  bufferSize := 5096
  pfcAShift := fun _ => 3
  reserve := 4096
  headroom := fun _ => 1000
  resumeOffset := 3072
  totalHdrm := 1000
  totalRsrv := 4096
  bufferSize_lt := by decide
  reserve_lt := fourKilobytes_lt
  headroom_lt := fun _ => by decide
  totalHdrm_lt := by decide
  totalRsrv_lt := fourKilobytes_lt

/-- A packet of 1000 bytes on the port, in a queue. -/
def kilobyte (qIndex : Nat) : Packet := ⟨1, 2, qIndex, 1000⟩

/-- A packet of 4000 bytes on the port, which takes most of its reserve. -/
def fourThousand (qIndex : Nat) : Packet := ⟨1, 2, qIndex, 4000⟩

/-- The reserves of two ports. -/
def twoPorts : MmuConfig where
  bufferSize := 12192
  pfcAShift := fun _ => 3
  reserve := 4096
  headroom := fun _ => 4000
  resumeOffset := 3072
  totalHdrm := 4000
  totalRsrv := 8192
  bufferSize_lt := by decide
  reserve_lt := fourKilobytes_lt
  headroom_lt := fun _ => by decide
  totalHdrm_lt := by decide
  totalRsrv_lt := by decide

/-- The unit with the first packet. -/
def oneBuffered : Pool := ⟨Mmu.initial.accept twoPorts 1 2 1 4000, [fourThousand 1]⟩

theorem all_oneBuffered :
    oneBuffered.mmu.allReserve twoPorts = 4000 ∧ oneBuffered.mmu.allHdrm = 0 := by
  have hcell : (1, 1) ∈ cells := mem_cells.mpr ⟨by rw [pCnt_eq]; decide, by decide⟩
  have hfits : Mmu.AdmissionFits twoPorts Mmu.initial 1 1 4000 := by decide +kernel
  have hreserve : Mmu.initial.reservePart twoPorts 1 1 4000 = 4000 := by decide +kernel
  have hhdrm : Mmu.initial.hdrmPart twoPorts 1 1 4000 = 0 := by decide +kernel
  obtain ⟨hr, hh⟩ := Mmu.all_accept (Mmu.initial_sound twoPorts) 2 hcell hfits
  rw [Mmu.initial_allReserve, hreserve, Nat.zero_add] at hr
  rw [Mmu.initial_allHdrm, hhdrm] at hh
  rw [oneBuffered]
  exact ⟨hr, hh⟩

/-- Two queues of one port take the reserves of two. -/
theorem fourThousand_occupancy_le :
    ∃ t, Run (step twoPorts) (StaysInTotals twoPorts) initial
        [.accept (fourThousand 1), .accept (fourThousand 2)] t ∧
      t.buffered = [fourThousand 2, fourThousand 1] ∧ t.mmu.occupancy ≤ twoPorts.bufferSize := by
  have hfirst : Mmu.initial.WithinTotals twoPorts 1 1 4000 := by
    rw [Mmu.WithinTotals, Mmu.initial_allReserve, Mmu.initial_allHdrm, Nat.zero_add, Nat.zero_add]
    decide +kernel
  have hsecond : oneBuffered.mmu.WithinTotals twoPorts 1 2 4000 := by
    rw [Mmu.WithinTotals, all_oneBuffered.1, all_oneBuffered.2]
    decide +kernel
  have hstep : step twoPorts initial (.accept (fourThousand 1)) = some oneBuffered :=
    if_pos (by decide +kernel)
  have hlast : ((step twoPorts oneBuffered (.accept (fourThousand 2))).any fun t =>
      decide (t.buffered = [fourThousand 2, fourThousand 1])) = true := by
    decide +kernel
  obtain ⟨t, ht, hbuffered⟩ := (Option.any_eq_true _ _).mp hlast
  have hrun : Run (step twoPorts) (StaysInTotals twoPorts) initial
      [.accept (fourThousand 1), .accept (fourThousand 2)] t :=
    .cons ⟨by decide +kernel, hfirst⟩ hstep (.cons ⟨by decide +kernel, hsecond⟩ ht (.nil t))
  exact ⟨t, hrun, of_decide_eq_true hbuffered, occupancy_le twoPorts (by decide) _ t hrun⟩

/-- Five packets fill the reserve and the headroom from one queue; the reserve of another queue of
the same port then takes a sixth, which the buffer has no room for. -/
theorem not_occupancy_le :
    ¬ ∀ (cfg : MmuConfig) (as : List Event) (s : Pool),
      cfg.totalHdrm + cfg.totalRsrv ≤ cfg.bufferSize → Run (step cfg) anyEvent initial as s →
        s.mmu.occupancy ≤ cfg.bufferSize := by
  intro hall
  obtain ⟨s, hrun, hover⟩ := exists_run (step onePort) anyEvent
    (fun s => onePort.bufferSize < s.mmu.ingressBytes (1, 1) + s.mmu.hdrmBytes (1, 1) +
      (s.mmu.ingressBytes (1, 2) + s.mmu.hdrmBytes (1, 2)))
    initial [.accept (kilobyte 1), .accept (kilobyte 1), .accept (kilobyte 1), .accept (kilobyte 1),
      .accept (kilobyte 1), .accept (kilobyte 2)]
    (by decide +kernel)
  have hle := hall _ _ _ (by decide) hrun
  have hsub : {(1, 1), (1, 2)} ⊆ cells := by
    intro k hk
    have hport : 1 < pCnt := by rw [pCnt_eq]; decide
    rcases Finset.mem_insert.mp hk with rfl | hk
    · exact mem_cells.mpr ⟨hport, by decide⟩
    · rw [Finset.mem_singleton] at hk
      subst hk
      exact mem_cells.mpr ⟨hport, by decide⟩
  have hpair := Finset.sum_le_sum_of_subset (f := fun k => s.mmu.ingressBytes k +
    s.mmu.hdrmBytes k) hsub
  rw [Finset.sum_pair (by decide)] at hpair
  exact Nat.lt_irrefl _ (Nat.lt_of_lt_of_le (Nat.lt_of_lt_of_le hover hpair) hle)

end Pool

end CollectiveSim.Switch
