import Mathlib
import CollectiveSim.Framework.Bytes
import CollectiveSim.Framework.Memory
import CollectiveSim.Msccl.Algorithm

/-!
# The buffers of a GPU

The bytes of the input, output and scratch buffers, the addresses and sizes that the application
computes for a transfer, and the elementwise sum.
-/

namespace CollectiveSim.Msccl

open Framework

/-- `DataType::Type`. -/
inductive ElemType
  | int32
  | float64
  | float32
  | int16
  deriving DecidableEq

/-- `DataType::GetSizeBytes`. -/
def ElemType.getSizeBytes : ElemType → Nat
  | .float32 => 4
  | .float64 => 8
  | .int32 => 4
  | .int16 => 2

theorem ElemType.getSizeBytes_pos (t : ElemType) : 0 < t.getSizeBytes := by
  cases t <;> decide

/-- The sums of two `float` and of two `double` values, on their bits. -/
structure FloatSums where
  float : UInt32 → UInt32 → UInt32
  double : UInt64 → UInt64 → UInt64

/-- The sums of the machine. -/
def FloatSums.machine : FloatSums where
  float a b := (Float32.ofBits a + Float32.ofBits b).toBits
  double a b := (Float.ofBits a + Float.ofBits b).toBits

/-- What does not change during a collective: the attributes of the application, how floating-point
values are added, which peers of a GPU are reached over RDMA, and the lengths of its buffers in
elements. -/
structure AppConfig where
  dataType : ElemType
  floatSums : FloatSums
  chunkSize : Nat
  isRdmaPeer : Nat → Nat → Bool
  bufferLen : Nat → BufferType → Nat

namespace AppConfig

variable (cfg : AppConfig)

/-- The bytes of `count` chunks, in 32-bit arithmetic. -/
def bytes (count : Nat) : Nat :=
  u32 (u32 (count * cfg.chunkSize) * cfg.dataType.getSizeBytes)

/-- The byte offset of a chunk, in 32-bit arithmetic. -/
def bufferOffset (off : Int) : Nat :=
  u32 (u32 ((off % 2 ^ 32).toNat * cfg.chunkSize) * cfg.dataType.getSizeBytes)

/-- The size of an allocated buffer. -/
def bufferBytes (gpu : Nat) (buf : BufferType) : Nat :=
  cfg.bufferLen gpu buf * cfg.dataType.getSizeBytes

/-- `GetBufferPtr`: the offset into the buffer, which must not be behind its end. -/
def getBufferPtr (gpu : Nat) (buf : BufferType) (off : Int) : Option Nat :=
  if cfg.bufferOffset off > cfg.bufferBytes gpu buf then none else some (cfg.bufferOffset off)

theorem getBufferPtr_eq_some_iff {gpu : Nat} {buf : BufferType} {off : Int} {p : Nat} :
    cfg.getBufferPtr gpu buf off = some p ↔
      p = cfg.bufferOffset off ∧ cfg.bufferOffset off ≤ cfg.bufferBytes gpu buf := by
  rw [getBufferPtr]
  by_cases hend : cfg.bufferOffset off > cfg.bufferBytes gpu buf
  · simp [hend, Nat.not_le.mpr hend]
  · simp [hend, Nat.not_lt.mp hend, eq_comm]

theorem getBufferPtr_eq_some {gpu : Nat} {buf : BufferType} {off : Int} {p : Nat}
    (h : cfg.getBufferPtr gpu buf off = some p) : p = cfg.bufferOffset off :=
  (cfg.getBufferPtr_eq_some_iff.mp h).1

theorem bytes_pos {count : Nat} (hcount : 1 ≤ count) (hchunk : 0 < cfg.chunkSize)
    (hsmall : count * cfg.chunkSize * cfg.dataType.getSizeBytes < 2 ^ 32) :
    0 < cfg.bytes count := by
  have hsize := cfg.dataType.getSizeBytes_pos
  have helems : count * cfg.chunkSize < 2 ^ 32 :=
    Nat.lt_of_le_of_lt (Nat.le_mul_of_pos_right _ hsize) hsmall
  rw [bytes, u32_of_lt helems, u32_of_lt hsmall]
  exact Nat.mul_pos (Nat.mul_pos hcount hchunk) hsize

end AppConfig

/-- A range of bytes of a buffer. -/
structure Region where
  buffer : BufferType
  addr : Nat
  size : Nat
  deriving DecidableEq

/-- The region ends inside the buffer that was allocated. -/
def Region.Allocated (r : Region) (cfg : AppConfig) (gpu : Nat) : Prop :=
  r.addr + r.size ≤ cfg.bufferBytes gpu r.buffer
deriving Decidable

theorem Region.Allocated.getBufferPtr_isSome {cfg : AppConfig} {gpu : Nat} {buf : BufferType}
    {off : Int} {n : Nat} (h : (⟨buf, cfg.bufferOffset off, n⟩ : Region).Allocated cfg gpu) :
    (cfg.getBufferPtr gpu buf off).isSome = true := by
  have hstart : cfg.bufferOffset off ≤ cfg.bufferBytes gpu buf := (Nat.le_add_right _ _).trans h
  rw [cfg.getBufferPtr_eq_some_iff.mpr ⟨rfl, hstart⟩]
  rfl

/-- The `n` bytes from `pos` on behind a `GetBufferPtr`. -/
def AppConfig.regionAt (cfg : AppConfig) (gpu : Nat) (buf : BufferType) (off : Int) (pos n : Nat) :
    Option Region :=
  (cfg.getBufferPtr gpu buf off).map fun addr => ⟨buf, addr + pos, n⟩

theorem AppConfig.regionAt_eq_some_iff {cfg : AppConfig} {gpu : Nat} {buf : BufferType} {off : Int}
    {pos n : Nat} {r : Region} :
    cfg.regionAt gpu buf off pos n = some r ↔
      cfg.bufferOffset off ≤ cfg.bufferBytes gpu buf ∧ r = ⟨buf, cfg.bufferOffset off + pos, n⟩ := by
  rw [regionAt, Option.map_eq_some_iff]
  constructor
  · rintro ⟨addr, hptr, rfl⟩
    obtain ⟨rfl, hstart⟩ := cfg.getBufferPtr_eq_some_iff.mp hptr
    exact ⟨hstart, rfl⟩
  · rintro ⟨hstart, rfl⟩
    exact ⟨_, cfg.getBufferPtr_eq_some_iff.mpr ⟨rfl, hstart⟩, rfl⟩

/-- The byte is in the region. -/
def Region.Has (r : Region) (buf : BufferType) (x : Nat) : Prop :=
  buf = r.buffer ∧ r.addr ≤ x ∧ x < r.addr + r.size

abbrev Memory := BufferType → Nat → UInt8

namespace Memory

variable (m : Memory)

def read (r : Region) : List UInt8 := readRange (m r.buffer) r.addr r.size

/-- `memcpy` to the buffer. -/
def write (buf : BufferType) (addr : Nat) (data : List UInt8) : Memory :=
  Function.update m buf (writeRange (m buf) addr data)

@[simp] theorem read_length (r : Region) : (m.read r).length = r.size := readRange_length _ _ _

theorem read_congr {m' : Memory} {r : Region}
    (h : ∀ buf x, r.Has buf x → m buf x = m' buf x) : m.read r = m'.read r :=
  readRange_congr fun x hlo hhi => h r.buffer x ⟨rfl, hlo, hhi⟩

theorem write_of_not_has {r : Region} {data : List UInt8} (hlen : data.length ≤ r.size)
    {buf : BufferType} {x : Nat} (h : ¬ r.Has buf x) :
    m.write r.buffer r.addr data buf x = m buf x := by
  rw [write]
  by_cases hbuf : buf = r.buffer
  · rw [hbuf, Function.update_self]
    apply writeRange_of_not_mem
    by_contra hmem
    exact h ⟨hbuf, by omega, by omega⟩
  · rw [Function.update_of_ne hbuf]

end Memory

section

variable (cfg : AppConfig)

/-- `d[i] += s[i]` on the bytes of an element; the sum of integers wraps. -/
def addElem (d s : List UInt8) : List UInt8 :=
  match cfg.dataType with
  | .int32 => encodeLE 4 (decodeLE d + decodeLE s)
  | .int16 => encodeLE 2 (decodeLE d + decodeLE s)
  | .float32 =>
      encodeLE 4 (cfg.floatSums.float (UInt32.ofNat (decodeLE d)) (UInt32.ofNat (decodeLE s))).toNat
  | .float64 =>
      encodeLE 8 (cfg.floatSums.double (UInt64.ofNat (decodeLE d)) (UInt64.ofNat (decodeLE s))).toNat

/-- `ReduceAdd` on `n` elements: what `dst` becomes. -/
def reduceElems : Nat → List UInt8 → List UInt8 → List UInt8
  | 0, _, _ => []
  | n + 1, d, s =>
      let size := cfg.dataType.getSizeBytes
      addElem cfg (d.take size) (s.take size) ++ reduceElems n (d.drop size) (s.drop size)

/-- `ReduceAdd`: bytes behind the last whole element stay as they are. -/
def reduceAdd (bytes : Nat) (d s : List UInt8) : List UInt8 :=
  let size := cfg.dataType.getSizeBytes
  reduceElems cfg (bytes / size) d s ++ d.drop (bytes / size * size)

@[simp] theorem addElem_length (d s : List UInt8) :
    (addElem cfg d s).length = cfg.dataType.getSizeBytes := by
  rw [addElem]
  cases cfg.dataType <;> exact encodeLE_length ..

@[simp] theorem reduceElems_length (n : Nat) (d s : List UInt8) :
    (reduceElems cfg n d s).length = n * cfg.dataType.getSizeBytes := by
  induction n generalizing d s with
  | zero => rw [reduceElems, List.length_nil, Nat.zero_mul]
  | succ n ih => rw [reduceElems, List.length_append, ih, addElem_length, Nat.succ_mul, Nat.add_comm]

variable {cfg}

theorem reduceAdd_length {bytes : Nat} {d : List UInt8} (s : List UInt8) (hd : d.length = bytes) :
    (reduceAdd cfg bytes d s).length = bytes := by
  have hle := Nat.div_mul_le_self bytes cfg.dataType.getSizeBytes
  rw [reduceAdd, List.length_append, reduceElems_length, List.length_drop, hd]
  omega

end

end CollectiveSim.Msccl
