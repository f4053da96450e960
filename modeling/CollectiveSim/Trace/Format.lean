import CollectiveSim.Framework.Bytes

/-!
# Records of a trace

`TraceFormat` is written to a trace file and read from it as it lies in memory, and the filter finds
the members of a record by their offsets. The members for the kinds of packets are a union.
-/

namespace CollectiveSim.Trace

open Framework

/-- Where a member lies, and how many bytes it takes. -/
structure Member where
  offset : Nat
  width : Nat
deriving DecidableEq

namespace Member

def time : Member := ⟨0, 8⟩
def node : Member := ⟨8, 2⟩
def intf : Member := ⟨10, 1⟩
def qidx : Member := ⟨11, 1⟩
def qlen : Member := ⟨12, 4⟩
def sip : Member := ⟨16, 4⟩
def dip : Member := ⟨20, 4⟩
def size : Member := ⟨24, 2⟩
def l3Prot : Member := ⟨26, 1⟩
def event : Member := ⟨27, 1⟩
def ecn : Member := ⟨28, 1⟩
def nodeType : Member := ⟨29, 1⟩

-- The union is aligned to eight bytes.
def dataSport : Member := ⟨32, 2⟩
def dataDport : Member := ⟨34, 2⟩
def dataSeq : Member := ⟨36, 4⟩
def dataTs : Member := ⟨40, 8⟩
def dataPg : Member := ⟨48, 2⟩
def dataPayload : Member := ⟨50, 2⟩
def cnpFid : Member := ⟨32, 2⟩
def cnpQIndex : Member := ⟨34, 1⟩
def cnpEcnBits : Member := ⟨35, 1⟩
def cnpQfb : Member := ⟨36, 2⟩
def cnpTotal : Member := ⟨38, 2⟩
def cnpSeq : Member := ⟨36, 4⟩
def ackSport : Member := ⟨32, 2⟩
def ackDport : Member := ⟨34, 2⟩
def ackFlags : Member := ⟨36, 2⟩
def ackPg : Member := ⟨38, 2⟩
def ackSeq : Member := ⟨40, 4⟩
def ackTs : Member := ⟨48, 8⟩
def pfcTime : Member := ⟨32, 4⟩
def pfcQlen : Member := ⟨36, 4⟩
def pfcQIndex : Member := ⟨40, 1⟩
def qpSport : Member := ⟨32, 2⟩
def qpDport : Member := ⟨34, 2⟩

/-- No byte belongs to both. -/
def Disjoint (m m' : Member) : Prop :=
  m.offset + m.width ≤ m'.offset ∨ m'.offset + m'.width ≤ m.offset

instance (m m' : Member) : Decidable (m.Disjoint m') := inferInstanceAs (Decidable (_ ∨ _))

end Member

structure TraceFormat where
  bytes : List UInt8
  length_eq : bytes.length = 56

namespace TraceFormat

theorem ext_bytes {tr tr' : TraceFormat} (h : tr.bytes = tr'.bytes) : tr = tr' := by
  obtain ⟨bytes, hlen⟩ := tr
  cases h
  rfl

/-- The unsigned integer at an offset; x86 is little-endian. -/
def read (tr : TraceFormat) (offset width : Nat) : Nat := decodeLE ((tr.bytes.drop offset).take width)

def get (tr : TraceFormat) (m : Member) : Nat := tr.read m.offset m.width

theorem length_patch (tr : TraceFormat) (m : Member) (x : Nat) :
    (patch tr.bytes m.offset (encodeLE m.width x)).length = 56 := by
  rw [patch_length, tr.length_eq]

/-- An assignment to a member. -/
def set (tr : TraceFormat) (m : Member) (x : Nat) : TraceFormat where
  bytes := patch tr.bytes m.offset (encodeLE m.width x)
  length_eq := tr.length_patch m x

theorem get_set (tr : TraceFormat) {m : Member} (x : Nat) (h : m.offset + m.width ≤ 56) :
    (tr.set m x).get m = x % 2 ^ (8 * m.width) := by
  have hbytes : ((patch tr.bytes m.offset (encodeLE m.width x)).drop m.offset).take m.width =
      encodeLE m.width x := by
    apply List.ext_getElem?
    intro i
    rw [List.getElem?_take, List.getElem?_drop]
    by_cases hi : i < m.width
    · have hin : m.offset + i < tr.bytes.length := by
        rw [tr.length_eq]
        omega
      rw [if_pos hi, patch_getElem?_of_mem (by rwa [encodeLE_length]) hin]
    · have hnone : (encodeLE m.width x)[i]? = none := by
        rw [List.getElem?_eq_none]
        rw [encodeLE_length]
        omega
      rw [if_neg hi, hnone]
  rw [get, read, set, hbytes, decodeLE_encodeLE]

theorem get_set_of_disjoint (tr : TraceFormat) {m m' : Member} (x : Nat) (h : m.Disjoint m') :
    (tr.set m x).get m' = tr.get m' := by
  have hbytes : ((patch tr.bytes m.offset (encodeLE m.width x)).drop m'.offset).take m'.width =
      (tr.bytes.drop m'.offset).take m'.width := by
    apply List.ext_getElem?
    intro i
    rw [List.getElem?_take, List.getElem?_take, List.getElem?_drop, List.getElem?_drop]
    by_cases hi : i < m'.width
    · rw [if_pos hi, if_pos hi, patch_getElem?_of_not_mem]
      rw [encodeLE_length]
      rcases h with h | h
      · right
        omega
      · left
        omega
    · rw [if_neg hi, if_neg hi]
  rw [get, get, read, read, set, hbytes]

end TraceFormat

end CollectiveSim.Trace
