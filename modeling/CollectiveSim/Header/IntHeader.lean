import Mathlib
import CollectiveSim.Framework.Bytes
import CollectiveSim.Framework.MachineInt

/-!
# The in-band telemetry header

`IntHeader` is a union of hop records, a timestamp and a PINT power, used both as an object and as a
view of raw packet memory; its operations are given on memory at a base position.
-/

namespace CollectiveSim.Header

open Framework

/-- `IntHeader::Mode`. -/
inductive IntMode
  | normal
  | ts
  | pint
  | none
  deriving DecidableEq

/-- The static members `IntHeader::mode`, `IntHeader::pint_bytes` (1 or 2) and `IntHop::multi`. -/
structure IntConfig where
  mode : IntMode
  pintOneByte : Bool
  multi : Nat
  deriving DecidableEq

def maxHop : Nat := 5

/-- `IntHop::Set` on the 64 bits of a record: 3 bits of line rate, 24 of time, 20 of bytes and 17 of
queue length, from the low end. An unknown rate leaves the line rate as it is. -/
def IntHop.set (multi hop time bytes qlen rate : Nat) : Nat :=
  let lineRate :=
    if rate = 25000000000 then 0
    else if rate = 50000000000 then 1
    else if rate = 100000000000 then 2
    else if rate = 200000000000 then 3
    else if rate = 400000000000 then 4
    else hop % 2 ^ 3
  lineRate + 2 ^ 3 * (time % 2 ^ 24) + 2 ^ 27 * (bytes / u32 (128 * multi) % 2 ^ 20) +
    2 ^ 47 * (qlen / u32 (80 * multi) % 2 ^ 17)

namespace IntHeader

variable (cfg : IntConfig)

/-- `IntHeader::GetStaticSize`. -/
def getStaticSize : Nat :=
  match cfg.mode with
  | .normal => 42
  | .ts => 8
  | .pint => 2
  | .none => 0

/-- The memory of a new header; `SimpleSeqTsHeader` sets the timestamp in mode TS. -/
def initial (now : Nat) : List UInt8 :=
  match cfg.mode with
  | .ts => encodeLE 8 now ++ List.replicate 34 0
  | _ => List.replicate 42 0

/-- The number of bytes that `Serialize` writes and `Deserialize` reads. -/
def wireBytes : Nat :=
  match cfg.mode with
  | .pint => if cfg.pintOneByte then 1 else 2
  | _ => getStaticSize cfg

/-- The INT field of a packet: in mode PINT with one byte the second one is left as it was in the
buffer. -/
def serialize (memory : List UInt8) (stale : UInt8) : List UInt8 :=
  memory.take (wireBytes cfg) ++ List.replicate (getStaticSize cfg - wireBytes cfg) stale

/-- `IntHeader::Deserialize` at a position: the bytes read into the union. -/
def deserialize (bytes : List UInt8) (pos : Nat) : Option (List UInt8) :=
  readAt bytes pos (wireBytes cfg)

/-- `IntHeader::PushHop` on the header at position `base` of a buffer. -/
def pushHop (base time bytes qlen rate : Nat) (buf : List UInt8) : List UInt8 :=
  match cfg.mode with
  | .normal =>
      let nhop := decodeLE ((buf.drop (base + 40)).take 2)
      let pos := base + 8 * (nhop % maxHop)
      let hop := decodeLE ((buf.drop pos).take 8)
      patch (patch buf pos (encodeLE 8 (IntHop.set cfg.multi hop time bytes qlen rate)))
        (base + 40) (encodeLE 2 (nhop + 1))
  | _ => buf

/-- `IntHeader::GetPower` on the header at position `base`. -/
def getPower (base : Nat) (buf : List UInt8) : Nat :=
  match cfg.mode with
  | .pint => decodeLE ((buf.drop base).take (wireBytes cfg))
  | _ => 0

/-- `IntHeader::SetPower` on the header at position `base`. -/
def setPower (base power : Nat) (buf : List UInt8) : List UInt8 :=
  match cfg.mode with
  | .pint => patch buf base (encodeLE (wireBytes cfg) power)
  | _ => buf

theorem wireBytes_of_pint {cfg : IntConfig} (h : cfg.mode = .pint) :
    wireBytes cfg = if cfg.pintOneByte then 1 else 2 := by
  rw [wireBytes, h]

theorem wireBytes_of_normal {cfg : IntConfig} (h : cfg.mode = .normal) : wireBytes cfg = 42 := by
  rw [wireBytes, getStaticSize, h]

theorem wireBytes_le : wireBytes cfg ≤ getStaticSize cfg := by
  obtain ⟨mode, pintOneByte, multi⟩ := cfg
  cases mode with
  | pint => cases pintOneByte <;> simp [wireBytes, getStaticSize]
  | _ => exact Nat.le_refl _

theorem getStaticSize_le : getStaticSize cfg ≤ 42 := by
  rw [getStaticSize]
  cases cfg.mode <;> decide

@[simp] theorem initial_length (now : Nat) : (initial cfg now).length = 42 := by
  obtain ⟨mode, pintOneByte, multi⟩ := cfg
  cases mode <;> simp [initial]

@[simp] theorem serialize_length {memory : List UInt8} (h : memory.length = 42) (stale : UInt8) :
    (serialize cfg memory stale).length = getStaticSize cfg := by
  have hle := wireBytes_le cfg
  have hmax := getStaticSize_le cfg
  rw [serialize, List.length_append, List.length_take, List.length_replicate, h]
  omega

@[simp] theorem pushHop_length (base time bytes qlen rate : Nat) (buf : List UInt8) :
    (pushHop cfg base time bytes qlen rate buf).length = buf.length := by
  rw [pushHop]
  cases cfg.mode <;> simp

@[simp] theorem setPower_length (base power : Nat) (buf : List UInt8) :
    (setPower cfg base power buf).length = buf.length := by
  rw [setPower]
  cases cfg.mode <;> simp

end IntHeader

end CollectiveSim.Header
