import Mathlib
import CollectiveSim.Framework.MachineInt

/-!
# The memory management unit of a switch

`SwitchMmu` books the bytes of every admitted packet twice: at the port and priority they came in
by, split into reserve, shared pool and headroom, and at the port and priority they leave by. The
arrays `[pCnt][qCnt]` are tables over pairs.
-/

namespace CollectiveSim.Switch

open Framework

/-- `SwitchMmu::pCnt`, the number of ports. -/
@[irreducible] def pCnt : Nat := 1025

theorem pCnt_eq : pCnt = 1025 := by rw [pCnt]

/-- `SwitchMmu::qCnt`, the number of queues of a port. -/
def qCnt : Nat := 8

/-- The indices of the arrays `[pCnt][qCnt]`. -/
def cells : Finset (Nat × Nat) := Finset.range pCnt ×ˢ Finset.range qCnt

theorem mem_cells {k : Nat × Nat} : k ∈ cells ↔ k.1 < pCnt ∧ k.2 < qCnt := by
  rw [cells, Finset.mem_product, Finset.mem_range, Finset.mem_range]

theorem card_cells : cells.card = 8200 := by
  rw [cells, Finset.card_product, Finset.card_range, Finset.card_range, pCnt_eq]
  rfl

/-- The configuration members of `SwitchMmu`: 32-bit words. -/
structure MmuConfig where
  bufferSize : Nat
  pfcAShift : Nat → Nat
  reserve : Nat
  headroom : Nat → Nat
  resumeOffset : Nat
  totalHdrm : Nat
  totalRsrv : Nat
  bufferSize_lt : bufferSize < 2 ^ 32
  reserve_lt : reserve < 2 ^ 32
  headroom_lt : ∀ port, headroom port < 2 ^ 32
  totalHdrm_lt : totalHdrm < 2 ^ 32
  totalRsrv_lt : totalRsrv < 2 ^ 32

theorem fourKilobytes_lt : 4096 < 2 ^ 32 := by decide

theorem twelveMegabytes_lt : 12 * 1024 * 1024 < 2 ^ 32 := by decide

/-- The runtime members of `SwitchMmu`. -/
structure Mmu where
  sharedUsedBytes : Nat
  hdrmBytes : Nat × Nat → Nat
  ingressBytes : Nat × Nat → Nat
  paused : Nat × Nat → Bool
  egressBytes : Nat × Nat → Nat

/-- The state the constructor leaves. -/
def Mmu.initial : Mmu where
  sharedUsedBytes := 0
  hdrmBytes := fun _ => 0
  ingressBytes := fun _ => 0
  paused := fun _ => false
  egressBytes := fun _ => 0

namespace Mmu

variable (cfg : MmuConfig) (m : Mmu) (port qIndex psize : Nat)

/-- `GetPfcThreshold`. A shift by 32 or more is undefined in the source; the shift count is masked
as the hardware masks it. -/
def getPfcThreshold : Nat :=
  sub32 (sub32 (sub32 cfg.bufferSize cfg.totalHdrm) cfg.totalRsrv) m.sharedUsedBytes >>>
    (cfg.pfcAShift port % 32)

/-- `GetSharedUsed`. -/
def getSharedUsed : Nat :=
  if m.ingressBytes (port, qIndex) > cfg.reserve then m.ingressBytes (port, qIndex) - cfg.reserve
  else 0

/-- `CheckIngressAdmission`. -/
def checkIngressAdmission : Bool :=
  !(decide (u32 (psize + m.hdrmBytes (port, qIndex)) > cfg.headroom port) &&
    decide (u32 (psize + m.getSharedUsed cfg port qIndex) > m.getPfcThreshold cfg port))

/-- `CheckEgressAdmission`. -/
def checkEgressAdmission (_port _qIndex _psize : Nat) : Bool := true

/-- The branch of `UpdateIngressAdmission` that books a packet in the headroom. -/
def ToHeadroom : Prop :=
  cfg.reserve < u32 (m.ingressBytes (port, qIndex) + psize) ∧
    m.getPfcThreshold cfg port < u32 (m.ingressBytes (port, qIndex) + psize) - cfg.reserve

instance : Decidable (m.ToHeadroom cfg port qIndex psize) := by
  unfold ToHeadroom
  infer_instance

/-- `UpdateIngressAdmission`. -/
def updateIngressAdmission : Mmu :=
  let newBytes := u32 (m.ingressBytes (port, qIndex) + psize)
  if newBytes ≤ cfg.reserve then
    { m with ingressBytes := Function.update m.ingressBytes (port, qIndex) newBytes }
  else
    let thresh := m.getPfcThreshold cfg port
    if newBytes - cfg.reserve > thresh then
      { m with
        hdrmBytes := Function.update m.hdrmBytes (port, qIndex)
          (u32 (m.hdrmBytes (port, qIndex) + psize)) }
    else
      { m with
        ingressBytes := Function.update m.ingressBytes (port, qIndex) newBytes
        sharedUsedBytes := u32 (m.sharedUsedBytes + min psize (newBytes - cfg.reserve)) }

theorem updateIngressAdmission_hdrmBytes :
    (m.updateIngressAdmission cfg port qIndex psize).hdrmBytes =
      if m.ToHeadroom cfg port qIndex psize then
        Function.update m.hdrmBytes (port, qIndex) (u32 (m.hdrmBytes (port, qIndex) + psize))
      else m.hdrmBytes := by
  dsimp only [updateIngressAdmission]
  by_cases hnew : u32 (m.ingressBytes (port, qIndex) + psize) ≤ cfg.reserve
  · rw [if_pos hnew, if_neg fun hto => Nat.not_lt.mpr hnew hto.1]
  · rw [if_neg hnew]
    by_cases hover : u32 (m.ingressBytes (port, qIndex) + psize) - cfg.reserve >
        m.getPfcThreshold cfg port
    · rw [if_pos hover, if_pos ⟨Nat.not_le.mp hnew, hover⟩]
    · rw [if_neg hover, if_neg fun hto => hover hto.2]

@[simp] theorem updateIngressAdmission_paused :
    (m.updateIngressAdmission cfg port qIndex psize).paused = m.paused := by
  dsimp only [updateIngressAdmission]
  split
  · rfl
  · split <;> rfl

/-- `UpdateEgressAdmission`. -/
def updateEgressAdmission : Mmu :=
  { m with
    egressBytes := Function.update m.egressBytes (port, qIndex)
      (u64 (m.egressBytes (port, qIndex) + psize)) }

@[simp] theorem updateEgressAdmission_ingressBytes :
    (m.updateEgressAdmission port qIndex psize).ingressBytes = m.ingressBytes := rfl

@[simp] theorem updateEgressAdmission_hdrmBytes :
    (m.updateEgressAdmission port qIndex psize).hdrmBytes = m.hdrmBytes := rfl

@[simp] theorem updateEgressAdmission_sharedUsedBytes :
    (m.updateEgressAdmission port qIndex psize).sharedUsedBytes = m.sharedUsedBytes := rfl

@[simp] theorem updateEgressAdmission_paused :
    (m.updateEgressAdmission port qIndex psize).paused = m.paused := rfl

/-- The bytes that `RemoveFromIngressAdmission` takes out of the headroom. -/
def fromHdrm : Nat := min (m.hdrmBytes (port, qIndex)) psize

/-- The bytes that `RemoveFromIngressAdmission` gives back to the shared pool. -/
def fromShared : Nat :=
  min (psize - m.fromHdrm port qIndex psize) (m.getSharedUsed cfg port qIndex)

/-- `RemoveFromIngressAdmission`. -/
def removeFromIngressAdmission : Mmu :=
  { m with
    hdrmBytes := Function.update m.hdrmBytes (port, qIndex)
      (sub32 (m.hdrmBytes (port, qIndex)) (m.fromHdrm port qIndex psize))
    ingressBytes := Function.update m.ingressBytes (port, qIndex)
      (sub32 (m.ingressBytes (port, qIndex)) (psize - m.fromHdrm port qIndex psize))
    sharedUsedBytes := sub32 m.sharedUsedBytes (m.fromShared cfg port qIndex psize) }

/-- `RemoveFromEgressAdmission`. -/
def removeFromEgressAdmission : Mmu :=
  { m with
    egressBytes := Function.update m.egressBytes (port, qIndex)
      (sub64 (m.egressBytes (port, qIndex)) psize) }

/-- `CheckShouldPause`. -/
def checkShouldPause : Bool :=
  !m.paused (port, qIndex) &&
    (decide (m.hdrmBytes (port, qIndex) > 0) ||
      decide (m.getSharedUsed cfg port qIndex ≥ m.getPfcThreshold cfg port))

/-- `CheckShouldResume`. -/
def checkShouldResume : Bool :=
  m.paused (port, qIndex) &&
    (m.hdrmBytes (port, qIndex) == 0 &&
      (m.getSharedUsed cfg port qIndex == 0 ||
        decide (u32 (m.getSharedUsed cfg port qIndex + cfg.resumeOffset) ≤
          m.getPfcThreshold cfg port)))

/-- `SetPause`. -/
def setPause : Mmu := { m with paused := Function.update m.paused (port, qIndex) true }

/-- `SetResume`. -/
def setResume : Mmu := { m with paused := Function.update m.paused (port, qIndex) false }

/-- The two updates `SendToDev` makes for an admitted packet. -/
def accept (inDev outDev qIndex psize : Nat) : Mmu :=
  (m.updateIngressAdmission cfg inDev qIndex psize).updateEgressAdmission outDev qIndex psize

/-- The two updates `SwitchNotifyDequeue` makes for a packet that leaves. -/
def release (inDev outDev qIndex psize : Nat) : Mmu :=
  (m.removeFromIngressAdmission cfg inDev qIndex psize).removeFromEgressAdmission outDev qIndex
    psize

@[simp] theorem accept_paused (inDev outDev qIndex psize : Nat) :
    (m.accept cfg inDev outDev qIndex psize).paused = m.paused := by
  rw [accept, updateEgressAdmission_paused, updateIngressAdmission_paused]

@[simp] theorem release_paused (inDev outDev qIndex psize : Nat) :
    (m.release cfg inDev outDev qIndex psize).paused = m.paused := rfl

end Mmu

end CollectiveSim.Switch
