import CollectiveSim.Msccl.Buffer

/-!
# Byte counts and addresses

`RunStep` multiplies the count of a step by the chunk size, the channel multiplies by the element
size, and `GetBufferPtr` does both for an offset. All products are unsigned and 32 bits wide.
-/

namespace CollectiveSim.Msccl

open Framework

namespace ElemType

/-- `nElems` of `RunStep`. -/
def runStepElems (count chunkSize : Nat) : Nat := u32 (count * chunkSize)

variable (t : ElemType)

/-- The bytes of so many elements, as every transfer computes them. -/
def elemBytes (nElems : Nat) : Nat := u32 (nElems * t.getSizeBytes)

/-- `totalBytes` of `Send`. -/
def sendBytes (nElems : Nat) : Nat := t.elemBytes nElems

/-- `totalBytes` of `SendRdma`. -/
def sendRdmaBytes (nElems : Nat) : Nat := t.elemBytes nElems

/-- `bytes` of `ClaimOrRegisterPendingRecv`, which `Recv` and `RecvRedCp` call. -/
def recvBytes (nElems : Nat) : Nat := t.elemBytes nElems

/-- `GetBufferPtrRawBytes` on a buffer of `len` elements at an address. -/
def getBufferPtrRawBytes (len base offset : Nat) : Option Nat :=
  if u64 (len * t.getSizeBytes) < offset then none else some (base + offset)

/-- `GetBufferPtr`: a negative offset becomes a large unsigned one. -/
def getBufferPtr (chunkSize len base : Nat) (offset : Int) : Option Nat :=
  t.getBufferPtrRawBytes len base
    (u32 (u32 ((offset % 2 ^ 32).toNat * chunkSize) * t.getSizeBytes))

/-- Sizes and addresses of a step are those of its chunks. -/
structure ExactFor (chunkSize : UInt32) (count : UInt8) (offset : Int16) (len base : Nat) :
    Prop where
  send : t.sendBytes (runStepElems count.toNat chunkSize.toNat) =
    count.toNat * chunkSize.toNat * t.getSizeBytes
  sendRdma : t.sendRdmaBytes (runStepElems count.toNat chunkSize.toNat) =
    count.toNat * chunkSize.toNat * t.getSizeBytes
  recv : t.recvBytes (runStepElems count.toNat chunkSize.toNat) =
    count.toNat * chunkSize.toNat * t.getSizeBytes
  address : ∀ p, t.getBufferPtr chunkSize.toNat len base offset.toInt = some p →
    (p : Int) = base + offset.toInt * chunkSize.toNat * t.getSizeBytes

variable {t}

theorem elemBytes_runStepElems (count chunkSize : Nat) :
    t.elemBytes (runStepElems count chunkSize) = u32 (count * chunkSize * t.getSizeBytes) := by
  rw [elemBytes, runStepElems, u32, u32, u32, Nat.mod_mul_mod]

theorem elemBytes_eq_iff (count chunkSize : Nat) :
    t.elemBytes (runStepElems count chunkSize) = count * chunkSize * t.getSizeBytes ↔
      count * chunkSize * t.getSizeBytes < 2 ^ 32 := by
  rw [elemBytes_runStepElems]
  constructor
  · intro h
    rw [← h]
    exact u32_lt _
  · exact fun h => u32_of_lt h

theorem bufferOffset_eq (chunkSize : Nat) (offset : Int) :
    (u32 (u32 ((offset % 2 ^ 32).toNat * chunkSize) * t.getSizeBytes) : Int) =
      offset * chunkSize * t.getSizeBytes % 2 ^ 32 := by
  have hnat : ((offset % 2 ^ 32).toNat : Int) = offset % 2 ^ 32 :=
    Int.toNat_of_nonneg (Int.emod_nonneg _ (by decide))
  rw [u32, u32, Nat.mod_mul_mod, Int.natCast_mod, Nat.cast_mul, Nat.cast_mul, hnat, mul_assoc,
    mul_assoc]
  exact (Int.mod_modEq offset (2 ^ 32)).mul_right _

theorem address_iff (chunkSize len base : Nat) (offset : Int) :
    (∀ p, t.getBufferPtr chunkSize len base offset = some p →
        (p : Int) = base + offset * chunkSize * t.getSizeBytes) ↔
      (0 ≤ offset * chunkSize * t.getSizeBytes ∧ offset * chunkSize * t.getSizeBytes < 2 ^ 32) ∨
        (u64 (len * t.getSizeBytes) : Int) < offset * chunkSize * t.getSizeBytes % 2 ^ 32 := by
  have hoffset := bufferOffset_eq (t := t) chunkSize offset
  rw [getBufferPtr, getBufferPtrRawBytes, ← hoffset]
  generalize u32 (u32 ((offset % 2 ^ 32).toNat * chunkSize) * t.getSizeBytes) = n at hoffset ⊢
  by_cases hend : u64 (len * t.getSizeBytes) < n
  · simp [hend]
  · have hmod : offset * chunkSize * t.getSizeBytes = n ↔
        0 ≤ offset * chunkSize * t.getSizeBytes ∧ offset * chunkSize * t.getSizeBytes < 2 ^ 32 := by
      omega
    simp only [hend, if_false, Option.some.injEq, forall_eq', Nat.cast_add, add_right_inj,
      Nat.cast_lt, or_false]
    rw [← hmod, eq_comm]

theorem exactFor_iff (t : ElemType) (chunkSize : UInt32) (count : UInt8) (offset : Int16)
    (len base : Nat) :
    t.ExactFor chunkSize count offset len base ↔
      count.toNat * chunkSize.toNat * t.getSizeBytes < 2 ^ 32 ∧
        ((0 ≤ offset.toInt * chunkSize.toNat * t.getSizeBytes ∧
            offset.toInt * chunkSize.toNat * t.getSizeBytes < 2 ^ 32) ∨
          (u64 (len * t.getSizeBytes) : Int) <
            offset.toInt * chunkSize.toNat * t.getSizeBytes % 2 ^ 32) := by
  have hsize := elemBytes_eq_iff (t := t) count.toNat chunkSize.toNat
  have haddress := address_iff (t := t) chunkSize.toNat len base offset.toInt
  constructor
  · intro h
    exact ⟨hsize.mp h.send, haddress.mp h.address⟩
  · intro h
    have hexact := hsize.mpr h.1
    exact ⟨hexact, hexact, hexact, haddress.mpr h.2⟩

/-- One chunk of `2 ^ 30` integers has no bytes. -/
theorem not_exactFor : ¬ ElemType.int32.ExactFor (2 ^ 30) 1 0 (2 ^ 30) 0 := by
  intro h
  exact absurd h.send (by decide)

end ElemType

/-- A collective counts the bytes of a step as the channel does. -/
theorem AppConfig.bytes_eq_elemBytes (cfg : AppConfig) (count : Nat) :
    cfg.bytes count = cfg.dataType.elemBytes (ElemType.runStepElems count cfg.chunkSize) :=
  rfl

/-- The addresses of a collective are those of buffers at address 0. -/
theorem AppConfig.getBufferPtr_eq (cfg : AppConfig) (gpu : Nat) (buf : BufferType) (off : Int)
    (hlen : cfg.bufferBytes gpu buf < 2 ^ 64) :
    cfg.getBufferPtr gpu buf off =
      cfg.dataType.getBufferPtr cfg.chunkSize (cfg.bufferLen gpu buf) 0 off := by
  rw [bufferBytes] at hlen
  rw [AppConfig.getBufferPtr, AppConfig.bufferOffset, bufferBytes, ElemType.getBufferPtr,
    ElemType.getBufferPtrRawBytes, u64_of_lt hlen, Nat.zero_add]

end CollectiveSim.Msccl
