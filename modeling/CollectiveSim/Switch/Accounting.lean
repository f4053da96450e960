import Mathlib
import CollectiveSim.Framework.Ledger
import CollectiveSim.Framework.Run
import CollectiveSim.Switch.Mmu

/-!
# What the counters of the memory management unit count

The counters agree with two ledgers of the buffered bytes, by port and priority of arrival and by
port and priority of departure. Admission and release keep the agreement as long as the 32-bit sum
that an admission books does not wrap.
-/

open scoped BigOperators

namespace CollectiveSim.Switch

open Framework

/-- The part of the buffer that `GetPfcThreshold` leaves to sharing. -/
def MmuConfig.sharedPool (cfg : MmuConfig) : Nat :=
  sub32 (sub32 cfg.bufferSize cfg.totalHdrm) cfg.totalRsrv

theorem MmuConfig.sharedPool_lt (cfg : MmuConfig) : cfg.sharedPool < 2 ^ 32 := sub32_lt _ _

namespace Mmu

variable {cfg : MmuConfig} {m : Mmu} {f g : Nat × Nat → Nat}

theorem getSharedUsed_eq (cfg : MmuConfig) (m : Mmu) (port qIndex : Nat) :
    m.getSharedUsed cfg port qIndex = m.ingressBytes (port, qIndex) - cfg.reserve := by
  rw [getSharedUsed]
  split <;> omega

theorem getPfcThreshold_le (port : Nat) (hshared : m.sharedUsedBytes ≤ cfg.sharedPool) :
    m.getPfcThreshold cfg port ≤ cfg.sharedPool - m.sharedUsedBytes := by
  have hsub := sub32_of_le hshared cfg.sharedPool_lt
  rw [getPfcThreshold, ← MmuConfig.sharedPool, hsub, Nat.shiftRight_eq_div_pow]
  exact Nat.div_le_self ..

theorem updateIngressAdmission_of_toHeadroom {port qIndex psize : Nat}
    (h : m.ToHeadroom cfg port qIndex psize) :
    m.updateIngressAdmission cfg port qIndex psize =
      { m with
        hdrmBytes := Function.update m.hdrmBytes (port, qIndex)
          (u32 (m.hdrmBytes (port, qIndex) + psize)) } := by
  rw [updateIngressAdmission, if_neg (Nat.not_le.mpr h.1), if_pos h.2]

theorem updateIngressAdmission_of_not_toHeadroom {port qIndex psize : Nat}
    (h : ¬ m.ToHeadroom cfg port qIndex psize) (hshared : m.sharedUsedBytes < 2 ^ 32) :
    m.updateIngressAdmission cfg port qIndex psize =
      { m with
        ingressBytes := Function.update m.ingressBytes (port, qIndex)
          (u32 (m.ingressBytes (port, qIndex) + psize))
        sharedUsedBytes := u32 (m.sharedUsedBytes +
          min psize (u32 (m.ingressBytes (port, qIndex) + psize) - cfg.reserve)) } := by
  rw [updateIngressAdmission]
  by_cases hnew : u32 (m.ingressBytes (port, qIndex) + psize) ≤ cfg.reserve
  · rw [if_pos hnew, Nat.sub_eq_zero_of_le hnew, Nat.min_zero, Nat.add_zero, u32_of_lt hshared]
  · rw [if_neg hnew, if_neg fun hgt => h ⟨Nat.not_le.mp hnew, hgt⟩]

/-- The sum that an admission books fits in its 32-bit counter. -/
def AdmissionFits (cfg : MmuConfig) (m : Mmu) (port qIndex psize : Nat) : Prop :=
  if m.ToHeadroom cfg port qIndex psize then m.hdrmBytes (port, qIndex) + psize < 2 ^ 32
  else m.ingressBytes (port, qIndex) + psize < 2 ^ 32

instance (port qIndex psize : Nat) : Decidable (AdmissionFits cfg m port qIndex psize) := by
  unfold AdmissionFits
  infer_instance

/-- None of the subtractions that release a packet goes below zero. -/
structure RemovalFits (cfg : MmuConfig) (m : Mmu) (inDev outDev qIndex psize : Nat) : Prop where
  size : m.fromHdrm inDev qIndex psize ≤ psize
  hdrm : m.fromHdrm inDev qIndex psize ≤ m.hdrmBytes (inDev, qIndex)
  ingress : psize - m.fromHdrm inDev qIndex psize ≤ m.ingressBytes (inDev, qIndex)
  shared : m.fromShared cfg inDev qIndex psize ≤ m.sharedUsedBytes
  egress : psize ≤ m.egressBytes (outDev, qIndex)

/-- The counters agree with the bytes `f` buffered by port and priority of arrival and `g` by port
and priority of departure. -/
structure Accounts (cfg : MmuConfig) (m : Mmu) (f g : Nat × Nat → Nat) : Prop where
  ingress : ∀ k ∈ cells, m.ingressBytes k + m.hdrmBytes k = f k
  egress : ∀ k ∈ cells, m.egressBytes k = g k
  shared : m.sharedUsedBytes = ∑ k ∈ cells, (m.ingressBytes k - cfg.reserve)
  headroom : ∀ k ∈ cells, m.hdrmBytes k ≤ cfg.headroom k.1

/-- What admission and release keep along with the agreement. -/
structure Sound (cfg : MmuConfig) (m : Mmu) (f g : Nat × Nat → Nat) : Prop
    extends Accounts cfg m f g where
  ingress_lt : ∀ k ∈ cells, m.ingressBytes k < 2 ^ 32
  shared_le : m.sharedUsedBytes ≤ cfg.sharedPool
  balanced : ∑ k ∈ cells, g k = ∑ k ∈ cells, f k

theorem initial_sound (cfg : MmuConfig) : Sound cfg initial (fun _ => 0) fun _ => 0 where
  ingress _ _ := rfl
  egress _ _ := rfl
  shared := by simp [initial]
  headroom _ _ := Nat.zero_le _
  ingress_lt _ _ := Nat.two_pow_pos 32
  shared_le := Nat.zero_le _
  balanced := rfl

namespace Sound

theorem shared_lt (h : Sound cfg m f g) : m.sharedUsedBytes < 2 ^ 32 :=
  Nat.lt_of_le_of_lt h.shared_le cfg.sharedPool_lt

theorem hdrm_lt (h : Sound cfg m f g) {k : Nat × Nat} (hk : k ∈ cells) :
    m.hdrmBytes k < 2 ^ 32 :=
  Nat.lt_of_le_of_lt (h.headroom k hk) (cfg.headroom_lt k.1)

theorem egress_le (h : Sound cfg m f g) {k : Nat × Nat} (hk : k ∈ cells) :
    m.egressBytes k ≤ cells.card * 2 ^ 33 := by
  calc m.egressBytes k = g k := h.egress k hk
    _ ≤ ∑ j ∈ cells, g j := Finset.single_le_sum (fun _ _ => Nat.zero_le _) hk
    _ = ∑ j ∈ cells, f j := h.balanced
    _ ≤ ∑ _j ∈ cells, 2 ^ 33 := by
        apply Finset.sum_le_sum
        intro j hj
        have hi := h.ingress_lt j hj
        have hh := h.hdrm_lt hj
        have hf := h.ingress j hj
        omega
    _ = cells.card * 2 ^ 33 := by rw [Finset.sum_const, smul_eq_mul]

theorem egress_add_lt (h : Sound cfg m f g) {k : Nat × Nat} (hk : k ∈ cells) {n : Nat}
    (hn : n < 2 ^ 32) : m.egressBytes k + n < 2 ^ 64 := by
  have hle := h.egress_le hk
  rw [card_cells] at hle
  omega

theorem hdrm_le_of_check (h : Sound cfg m f g) {port qIndex psize : Nat}
    (hcell : (port, qIndex) ∈ cells) (hsize : psize < 2 ^ 32)
    (hcheck : m.checkIngressAdmission cfg port qIndex psize = true)
    (hto : m.ToHeadroom cfg port qIndex psize) :
    u32 (psize + m.hdrmBytes (port, qIndex)) ≤ cfg.headroom port := by
  by_contra hover
  have hshare : u32 (psize + m.getSharedUsed cfg port qIndex) ≤ m.getPfcThreshold cfg port := by
    simpa [checkIngressAdmission, Nat.not_le.mp hover] using hcheck
  have hlt := h.ingress_lt _ hcell
  obtain ⟨hres, hthresh⟩ := hto
  rw [getSharedUsed_eq] at hshare
  simp only [u32] at hshare hres hthresh
  omega

end Sound

theorem sum_ingress_update (cfg : MmuConfig) (m : Mmu) {k : Nat × Nat} (hk : k ∈ cells) (v : Nat) :
    ∑ j ∈ cells, (Function.update m.ingressBytes k v j - cfg.reserve) +
        (m.ingressBytes k - cfg.reserve) =
      ∑ j ∈ cells, (m.ingressBytes j - cfg.reserve) + (v - cfg.reserve) :=
  sum_update_entry hk (fun n => n - cfg.reserve) m.ingressBytes v

theorem update_agrees {c t : Nat × Nat → Nat} {k : Nat × Nat} {v n : Nat}
    (h : ∀ j ∈ cells, c j = t j) (hv : v = t k + n) :
    ∀ j ∈ cells, Function.update c k v j = bump t k n j := by
  intro j hj
  by_cases heq : j = k
  · subst heq
    rw [Function.update_self, bump_self, hv]
  · rw [Function.update_of_ne heq, bump_of_ne heq, h j hj]

namespace Sound

variable {inDev outDev qIndex psize : Nat}

theorem accept_headroom (h : Sound cfg m f g) (hin : (inDev, qIndex) ∈ cells)
    (hout : (outDev, qIndex) ∈ cells) (hsize : psize < 2 ^ 32)
    (hcheck : m.checkIngressAdmission cfg inDev qIndex psize = true)
    (hto : m.ToHeadroom cfg inDev qIndex psize)
    (hfits : m.hdrmBytes (inDev, qIndex) + psize < 2 ^ 32) :
    Sound cfg (m.accept cfg inDev outDev qIndex psize) (bump f (inDev, qIndex) psize)
      (bump g (outDev, qIndex) psize) := by
  have hroom := h.hdrm_le_of_check hin hsize hcheck hto
  rw [Nat.add_comm, u32_of_lt hfits] at hroom
  rw [accept, updateIngressAdmission_of_toHeadroom hto, u32_of_lt hfits]
  refine ⟨⟨?_, ?_, h.shared, ?_⟩, h.ingress_lt, h.shared_le, ?_⟩
  · intro k hk
    have hf := h.ingress k hk
    by_cases heq : k = (inDev, qIndex)
    · subst heq
      simp only [updateEgressAdmission_ingressBytes, updateEgressAdmission_hdrmBytes,
        Function.update_self, bump_self]
      omega
    · simp only [updateEgressAdmission_ingressBytes, updateEgressAdmission_hdrmBytes,
        Function.update_of_ne heq, bump_of_ne heq]
      exact hf
  · refine update_agrees h.egress ?_
    rw [u64_of_lt (h.egress_add_lt hout hsize), h.egress _ hout]
  · intro k hk
    by_cases heq : k = (inDev, qIndex)
    · subst heq
      simp only [updateEgressAdmission_hdrmBytes, Function.update_self]
      exact hroom
    · simp only [updateEgressAdmission_hdrmBytes, Function.update_of_ne heq]
      exact h.headroom k hk
  · rw [sum_bump hin, sum_bump hout, h.balanced]

theorem accept_ingress (h : Sound cfg m f g) (hin : (inDev, qIndex) ∈ cells)
    (hout : (outDev, qIndex) ∈ cells) (hsize : psize < 2 ^ 32)
    (hto : ¬ m.ToHeadroom cfg inDev qIndex psize)
    (hfits : m.ingressBytes (inDev, qIndex) + psize < 2 ^ 32) :
    Sound cfg (m.accept cfg inDev outDev qIndex psize) (bump f (inDev, qIndex) psize)
      (bump g (outDev, qIndex) psize) := by
  have hthresh := getPfcThreshold_le inDev h.shared_le
  have hpool := cfg.sharedPool_lt
  have hshared_le := h.shared_le
  have hnew : m.ingressBytes (inDev, qIndex) + psize - cfg.reserve ≤
      m.getPfcThreshold cfg inDev := by
    rw [ToHeadroom, u32_of_lt hfits] at hto
    omega
  -- what the packet takes from the shared pool is what it adds above the reserve
  have htaken : m.ingressBytes (inDev, qIndex) - cfg.reserve +
      min psize (m.ingressBytes (inDev, qIndex) + psize - cfg.reserve) =
        m.ingressBytes (inDev, qIndex) + psize - cfg.reserve := by
    omega
  have hsum := sum_ingress_update cfg m hin
    (m.ingressBytes (inDev, qIndex) + psize)
  rw [← h.shared] at hsum
  have hwrap : m.sharedUsedBytes +
      min psize (m.ingressBytes (inDev, qIndex) + psize - cfg.reserve) ≤ cfg.sharedPool := by
    omega
  rw [accept, updateIngressAdmission_of_not_toHeadroom hto h.shared_lt, u32_of_lt hfits,
    u32_of_lt (Nat.lt_of_le_of_lt hwrap hpool)]
  refine ⟨⟨?_, ?_, ?_, h.headroom⟩, ?_, hwrap, ?_⟩
  · intro k hk
    have hf := h.ingress k hk
    by_cases heq : k = (inDev, qIndex)
    · subst heq
      simp only [updateEgressAdmission_ingressBytes, updateEgressAdmission_hdrmBytes,
        Function.update_self, bump_self]
      omega
    · simp only [updateEgressAdmission_ingressBytes, updateEgressAdmission_hdrmBytes,
        Function.update_of_ne heq, bump_of_ne heq]
      exact hf
  · refine update_agrees h.egress ?_
    rw [u64_of_lt (h.egress_add_lt hout hsize), h.egress _ hout]
  · simp only [updateEgressAdmission]
    omega
  · intro k hk
    by_cases heq : k = (inDev, qIndex)
    · subst heq
      simp only [updateEgressAdmission_ingressBytes, Function.update_self]
      exact hfits
    · simp only [updateEgressAdmission_ingressBytes, Function.update_of_ne heq]
      exact h.ingress_lt k hk
  · rw [sum_bump hin, sum_bump hout, h.balanced]

/-- An admission whose sum fits books the packet under its two keys. -/
theorem accept (h : Sound cfg m f g) (hin : (inDev, qIndex) ∈ cells)
    (hout : (outDev, qIndex) ∈ cells) (hsize : psize < 2 ^ 32)
    (hcheck : m.checkIngressAdmission cfg inDev qIndex psize = true)
    (hfits : AdmissionFits cfg m inDev qIndex psize) :
    Sound cfg (m.accept cfg inDev outDev qIndex psize) (bump f (inDev, qIndex) psize)
      (bump g (outDev, qIndex) psize) := by
  rw [AdmissionFits] at hfits
  by_cases hto : m.ToHeadroom cfg inDev qIndex psize
  · rw [if_pos hto] at hfits
    exact h.accept_headroom hin hout hsize hcheck hto hfits
  · rw [if_neg hto] at hfits
    exact h.accept_ingress hin hout hsize hto hfits

/-- An admission whose sum wraps loses bytes. -/
theorem not_accounts_accept (h : Sound cfg m f g) (hin : (inDev, qIndex) ∈ cells)
    (hfits : ¬ AdmissionFits cfg m inDev qIndex psize) (g' : Nat × Nat → Nat) :
    ¬ Accounts cfg (m.accept cfg inDev outDev qIndex psize) (bump f (inDev, qIndex) psize) g' := by
  intro hacc
  have hf := h.ingress _ hin
  have hf' := hacc.ingress _ hin
  rw [AdmissionFits] at hfits
  by_cases hto : m.ToHeadroom cfg inDev qIndex psize
  · rw [if_pos hto] at hfits
    rw [Mmu.accept, updateIngressAdmission_of_toHeadroom hto] at hf'
    simp only [updateEgressAdmission_ingressBytes, updateEgressAdmission_hdrmBytes,
      Function.update_self, bump_self, u32] at hf'
    omega
  · rw [if_neg hto] at hfits
    rw [Mmu.accept, updateIngressAdmission_of_not_toHeadroom hto h.shared_lt] at hf'
    simp only [updateEgressAdmission_ingressBytes, updateEgressAdmission_hdrmBytes,
      Function.update_self, bump_self, u32] at hf'
    omega

/-- A packet that is booked can be released without a wrap. -/
theorem removalFits (h : Sound cfg m f g) (hin : (inDev, qIndex) ∈ cells)
    (hout : (outDev, qIndex) ∈ cells) (hf : psize ≤ f (inDev, qIndex))
    (hg : psize ≤ g (outDev, qIndex)) : RemovalFits cfg m inDev outDev qIndex psize := by
  have hbytes := h.ingress _ hin
  have hshared : m.ingressBytes (inDev, qIndex) - cfg.reserve ≤ m.sharedUsedBytes := by
    rw [h.shared]
    exact Finset.single_le_sum (f := fun k => m.ingressBytes k - cfg.reserve)
      (fun _ _ => Nat.zero_le _) hin
  refine ⟨Nat.min_le_right _ _, Nat.min_le_left _ _, ?_, ?_, ?_⟩
  · rw [fromHdrm]
    omega
  · rw [fromShared, getSharedUsed_eq]
    exact Nat.le_trans (Nat.min_le_right _ _) hshared
  · rw [h.egress _ hout]
    exact hg

/-- Releasing a packet strikes it from both ledgers. -/
theorem release (h : Sound cfg m (bump f (inDev, qIndex) psize) (bump g (outDev, qIndex) psize))
    (hin : (inDev, qIndex) ∈ cells) (hout : (outDev, qIndex) ∈ cells) :
    Sound cfg (m.release cfg inDev outDev qIndex psize) f g := by
  have hfit : RemovalFits cfg m inDev outDev qIndex psize :=
    h.removalFits hin hout (by simp) (by simp)
  have hbytes := h.ingress _ hin
  rw [bump_self] at hbytes
  have hegress := h.egress _ hout
  rw [bump_self] at hegress
  have hsum := sum_ingress_update cfg m hin
    (m.ingressBytes (inDev, qIndex) - (psize - m.fromHdrm inDev qIndex psize))
  rw [← h.shared] at hsum
  have hshared := hfit.shared
  have hmin : m.fromShared cfg inDev qIndex psize =
      min (psize - m.fromHdrm inDev qIndex psize)
        (m.ingressBytes (inDev, qIndex) - cfg.reserve) := by
    rw [fromShared, getSharedUsed_eq]
  have hfrom : m.fromHdrm inDev qIndex psize = min (m.hdrmBytes (inDev, qIndex)) psize := rfl
  rw [Mmu.release, removeFromIngressAdmission, removeFromEgressAdmission,
    sub32_of_le hfit.hdrm (h.hdrm_lt hin), sub32_of_le hfit.ingress (h.ingress_lt _ hin),
    sub32_of_le hfit.shared h.shared_lt,
    sub64_of_le hfit.egress (Nat.lt_of_le_of_lt (Nat.le_add_right _ 0)
      (h.egress_add_lt hout (Nat.two_pow_pos 32)))]
  refine ⟨⟨?_, ?_, ?_, ?_⟩, ?_, ?_, ?_⟩
  · intro k hk
    by_cases heq : k = (inDev, qIndex)
    · subst heq
      simp only [Function.update_self]
      omega
    · simp only [Function.update_of_ne heq]
      rw [h.ingress k hk, bump_of_ne heq]
  · intro k hk
    by_cases heq : k = (outDev, qIndex)
    · subst heq
      simp only [Function.update_self]
      omega
    · simp only [Function.update_of_ne heq]
      rw [h.egress k hk, bump_of_ne heq]
  · simp only
    omega
  · intro k hk
    by_cases heq : k = (inDev, qIndex)
    · subst heq
      simp only [Function.update_self]
      exact Nat.le_trans (Nat.sub_le _ _) (h.headroom _ hin)
    · simp only [Function.update_of_ne heq]
      exact h.headroom k hk
  · intro k hk
    by_cases heq : k = (inDev, qIndex)
    · subst heq
      simp only [Function.update_self]
      exact Nat.lt_of_le_of_lt (Nat.sub_le _ _) (h.ingress_lt _ hin)
    · simp only [Function.update_of_ne heq]
      exact h.ingress_lt k hk
  · exact Nat.le_trans (Nat.sub_le _ _) h.shared_le
  · have hbal := h.balanced
    rw [sum_bump hin, sum_bump hout] at hbal
    exact Nat.add_right_cancel hbal

end Sound

end Mmu

/-- What the counters see of a packet: its ports, its queue and `GetSize`. -/
structure Packet where
  inDev : Nat
  outDev : Nat
  qIndex : Nat
  size : Nat
  deriving DecidableEq

namespace Packet

/-- The key of the bytes of arrival. -/
def ingressKey (p : Packet) : Nat × Nat := (p.inDev, p.qIndex)

/-- The key of the bytes of departure. -/
def egressKey (p : Packet) : Nat × Nat := (p.outDev, p.qIndex)

/-- The ports and the queue are inside the arrays, the queue is not that of the highest priority,
and the size is a `uint32_t`. -/
def Indexed (p : Packet) : Prop :=
  p.ingressKey ∈ cells ∧ p.egressKey ∈ cells ∧ 1 ≤ p.qIndex ∧ p.size < 2 ^ 32

instance (p : Packet) : Decidable p.Indexed :=
  decidable_of_iff ((p.inDev < pCnt ∧ p.qIndex < qCnt) ∧ (p.outDev < pCnt ∧ p.qIndex < qCnt) ∧
    1 ≤ p.qIndex ∧ p.size < 2 ^ 32) (by rw [Indexed, mem_cells, mem_cells]; rfl)

end Packet

/-- The unit and the packets it has admitted and not yet released. -/
structure Pool where
  mmu : Mmu
  buffered : List Packet

namespace Pool

/-- An admission of a new packet, or the release of a packet admitted earlier. -/
inductive Event where
  | accept (p : Packet)
  | release (p : Packet)

def initial : Pool := ⟨.initial, []⟩

/-- One operation on the unit. A packet that the checks refuse is not admitted. -/
def step (cfg : MmuConfig) (s : Pool) : Event → Option Pool
  | .accept p =>
      if p.Indexed ∧ s.mmu.checkIngressAdmission cfg p.inDev p.qIndex p.size ∧
          Mmu.checkEgressAdmission p.outDev p.qIndex p.size then
        some ⟨s.mmu.accept cfg p.inDev p.outDev p.qIndex p.size, p :: s.buffered⟩
      else none
  | .release p =>
      if p ∈ s.buffered then
        some ⟨s.mmu.release cfg p.inDev p.outDev p.qIndex p.size, s.buffered.erase p⟩
      else none

/-- The bytes from a port still buffered in a queue. -/
def bytesFrom (s : Pool) : Nat × Nat → Nat := total Packet.ingressKey Packet.size s.buffered

/-- The bytes buffered for a port in a queue. -/
def bytesFor (s : Pool) : Nat × Nat → Nat := total Packet.egressKey Packet.size s.buffered

/-- The counters agree with the buffered packets, and releasing any of them wraps nothing. -/
structure Accounted (cfg : MmuConfig) (s : Pool) : Prop
    extends Mmu.Accounts cfg s.mmu s.bytesFrom s.bytesFor where
  removal : ∀ p ∈ s.buffered, Mmu.RemovalFits cfg s.mmu p.inDev p.outDev p.qIndex p.size

/-- The sum that the admission of a packet books fits in 32 bits. -/
def AdmissionFits (cfg : MmuConfig) (s : Pool) : Event → Prop
  | .accept p => s.mmu.AdmissionFits cfg p.inDev p.qIndex p.size
  | .release _ => True

instance (cfg : MmuConfig) (s : Pool) (a : Event) : Decidable (AdmissionFits cfg s a) := by
  cases a <;> unfold AdmissionFits <;> infer_instance

/-- The invariant of the runs whose admissions fit. -/
structure Inv (cfg : MmuConfig) (s : Pool) : Prop where
  sound : Mmu.Sound cfg s.mmu s.bytesFrom s.bytesFor
  indexed : ∀ p ∈ s.buffered, p.Indexed

theorem initial_inv (cfg : MmuConfig) : Inv cfg initial :=
  ⟨Mmu.initial_sound cfg, fun _ hp => absurd hp List.not_mem_nil⟩

theorem accept_of_step {cfg : MmuConfig} {s t : Pool} {p : Packet}
    (h : step cfg s (.accept p) = some t) :
    p.Indexed ∧ s.mmu.checkIngressAdmission cfg p.inDev p.qIndex p.size = true ∧
      t = ⟨s.mmu.accept cfg p.inDev p.outDev p.qIndex p.size, p :: s.buffered⟩ := by
  simp only [step, Option.ite_none_right_eq_some, Option.some.injEq] at h
  exact ⟨h.1.1, h.1.2.1, h.2.symm⟩

theorem release_of_step {cfg : MmuConfig} {s t : Pool} {p : Packet}
    (h : step cfg s (.release p) = some t) :
    p ∈ s.buffered ∧
      t = ⟨s.mmu.release cfg p.inDev p.outDev p.qIndex p.size, s.buffered.erase p⟩ := by
  simp only [step, Option.ite_none_right_eq_some, Option.some.injEq] at h
  exact ⟨h.1, h.2.symm⟩

theorem bytes_of_mem {s : Pool} {p : Packet} (hp : p ∈ s.buffered) :
    bump (total Packet.ingressKey Packet.size (s.buffered.erase p)) p.ingressKey p.size =
        s.bytesFrom ∧
      bump (total Packet.egressKey Packet.size (s.buffered.erase p)) p.egressKey p.size =
        s.bytesFor :=
  ⟨total_erase _ _ hp, total_erase _ _ hp⟩

theorem Inv.accounted {cfg : MmuConfig} {s : Pool} (h : Inv cfg s) : Accounted cfg s := by
  refine ⟨h.sound.toAccounts, ?_⟩
  intro p hp
  obtain ⟨hin, hout, -, -⟩ := h.indexed p hp
  obtain ⟨hfrom, hfor⟩ := bytes_of_mem hp
  refine h.sound.removalFits hin hout ?_ ?_
  · rw [← hfrom]
    exact Nat.le_trans (Nat.le_add_left _ _) (Nat.le_of_eq (bump_self ..).symm)
  · rw [← hfor]
    exact Nat.le_trans (Nat.le_add_left _ _) (Nat.le_of_eq (bump_self ..).symm)

theorem Inv.step {cfg : MmuConfig} {s t : Pool} {a : Event} (h : Inv cfg s)
    (hfits : AdmissionFits cfg s a) (hstep : Pool.step cfg s a = some t) : Inv cfg t := by
  cases a with
  | accept p =>
      obtain ⟨hidx, hcheck, rfl⟩ := accept_of_step hstep
      constructor
      · rw [bytesFrom, bytesFor, total_cons, total_cons]
        exact h.sound.accept hidx.1 hidx.2.1 hidx.2.2.2 hcheck hfits
      · intro q hq
        rcases List.mem_cons.mp hq with rfl | hq
        · exact hidx
        · exact h.indexed q hq
  | release p =>
      obtain ⟨hp, rfl⟩ := release_of_step hstep
      obtain ⟨hin, hout, -, -⟩ := h.indexed p hp
      obtain ⟨hfrom, hfor⟩ := bytes_of_mem hp
      constructor
      · refine Mmu.Sound.release ?_ hin hout
        have hsound := h.sound
        rw [← hfrom, ← hfor] at hsound
        exact hsound
      · intro q hq
        exact h.indexed q (List.mem_of_mem_erase hq)

/-- The counters are right in every state of a run exactly when every admission of the run
fits. -/
theorem accounted_iff_admissionFits (cfg : MmuConfig) (s : Pool) (as : List Event)
    (h : Run (step cfg) anyEvent initial as s) :
    (∀ bs cs t, as = bs ++ cs → Run (step cfg) anyEvent initial bs t → Accounted cfg t) ↔
      Run (step cfg) (AdmissionFits cfg) initial as s := by
  refine Run.guarded_iff (fun _ => Inv.accounted) (fun _ _ _ hinv => hinv.step) ?_ h
    (initial_inv cfg)
  intro s a t hinv hnot hstep hacc
  cases a with
  | accept p =>
      obtain ⟨hidx, -, rfl⟩ := accept_of_step hstep
      have hbad := hacc.toAccounts
      rw [bytesFrom, total_cons] at hbad
      exact hinv.sound.not_accounts_accept hidx.1 hnot _ hbad
  | release p => exact hnot trivial

/-- A buffer that is all reserve and headroom of one port. -/
def allHeadroom : MmuConfig where
  bufferSize := 2 ^ 32 - 1
  pfcAShift := fun _ => 3
  reserve := 4096
  headroom := fun _ => 2 ^ 32 - 1 - 4096
  resumeOffset := 3072
  totalHdrm := 2 ^ 32 - 1 - 4096
  totalRsrv := 4096
  bufferSize_lt := by decide
  reserve_lt := fourKilobytes_lt
  headroom_lt := fun _ => by decide
  totalHdrm_lt := by decide
  totalRsrv_lt := fourKilobytes_lt

/-- Half of what a 32-bit counter can hold. -/
def halfCounter : Packet := ⟨1, 2, 3, 2 ^ 31⟩

/-- One packet passes every check and releases cleanly. -/
theorem halfCounter_accounted :
    ∃ t, Run (step allHeadroom) (AdmissionFits allHeadroom) initial
        [.accept halfCounter, .release halfCounter] t ∧
      ∀ bs cs u, [Event.accept halfCounter, .release halfCounter] = bs ++ cs →
        Run (step allHeadroom) anyEvent initial bs u → Accounted allHeadroom u := by
  obtain ⟨t, hrun, -⟩ := exists_run (step allHeadroom) (AdmissionFits allHeadroom) (fun _ => True)
    initial [.accept halfCounter, .release halfCounter] (by decide +kernel)
  exact ⟨t, hrun, (accounted_iff_admissionFits _ t _ hrun.any).mpr hrun⟩

/-- The second of two such packets passes the check because the sum with the headroom in use wraps,
and the counter is back at zero with both in the buffer. -/
theorem not_accounted :
    ¬ ∀ (cfg : MmuConfig) (as : List Event) (s : Pool), Run (step cfg) anyEvent initial as s →
      Accounted cfg s := by
  intro hall
  obtain ⟨s, hrun, hzero, hbytes⟩ := exists_run (step allHeadroom) anyEvent
    (fun s => s.mmu.ingressBytes (1, 3) + s.mmu.hdrmBytes (1, 3) = 0 ∧ s.bytesFrom (1, 3) = 2 ^ 32)
    initial [.accept halfCounter, .accept halfCounter] (by decide +kernel)
  have hcell : (1, 3) ∈ cells := mem_cells.mpr ⟨by rw [pCnt_eq]; decide, by decide⟩
  have heq := (hall _ _ _ hrun).ingress _ hcell
  omega

end Pool

end CollectiveSim.Switch
