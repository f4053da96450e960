import Mathlib
import CollectiveSim.Framework.MachineInt

/-!
# Addresses of the fabric

`RdmaFabricHelper::Build` names the GPU at position `i` by the text `10.0.0.(i + 1)`, which the
constructor of `Ipv4Address` parses with an 8-bit accumulator for each octet.
-/

namespace CollectiveSim.Fabric

open Framework

/-- One character of an octet: `byte *= 10; byte += *ptr - ASCII_ZERO` on a `uint8_t`. -/
def pushDigit (byte : Nat) (c : Char) : Nat :=
  (((u8 (byte * 10) : Int) + c.toNat - 0x30) % 2 ^ 8).toNat

/-- The loop of `AsciiToIpv4Host` from the character after the first; `none` where an assertion
fails. -/
def asciiToIpv4HostFrom (host byte numberOfDots : Nat) : List Char → Option Nat
  | [] => if numberOfDots = 3 then some (u32 (host <<< 8) ||| byte) else none
  | '.' :: cs =>
      if cs = [] ∨ cs.head? = some '.' then none
      else asciiToIpv4HostFrom (u32 (host <<< 8) ||| byte) 0 (u8 (numberOfDots + 1)) cs
  | c :: cs => asciiToIpv4HostFrom host (pushDigit byte c) numberOfDots cs

def asciiToIpv4Host (address : List Char) : Option Nat :=
  if address.head? = some '.' then none else asciiToIpv4HostFrom 0 0 0 address

/-- The address text of the GPU at position `i`. -/
def gpuIpText (i : Nat) : String := "10.0.0." ++ toString (i + 1)

/-- `gpuIp[i]`. -/
def gpuIp (i : Nat) : Nat := (asciiToIpv4Host (gpuIpText i).toList).getD 0

theorem pushDigit_u8 (x : Nat) {c : Char} (hc : c.isDigit) :
    pushDigit (u8 x) c = u8 (10 * x + (c.toNat - '0'.toNat)) := by
  have h48 : 48 ≤ c.toNat := (Char.isDigit_iff_toNat.mp hc).1
  have hzero : '0'.toNat = 48 := rfl
  rw [pushDigit, u8, u8, u8, hzero]
  omega

theorem asciiToIpv4HostFrom_digits (host numberOfDots x : Nat) (ds rest : List Char)
    (hds : ∀ c ∈ ds, c.isDigit) :
    asciiToIpv4HostFrom host (u8 x) numberOfDots (ds ++ rest) =
      asciiToIpv4HostFrom host (u8 (Nat.ofDigitChars 10 ds x)) numberOfDots rest := by
  induction ds generalizing x with
  | nil => simp
  | cons c ds ih =>
      have hc : c.isDigit := hds c List.mem_cons_self
      have hdot : c ≠ '.' := by
        rintro rfl
        exact absurd hc (by decide)
      rw [List.cons_append, asciiToIpv4HostFrom, pushDigit_u8 x hc,
        ih _ fun c hc => hds c (List.mem_cons_of_mem _ hc), Nat.ofDigitChars_cons]
      exact fun h => hdot h

/-- The text of every GPU is accepted, and its last octet is its number modulo 256. -/
theorem asciiToIpv4Host_gpuIpText (i : Nat) :
    asciiToIpv4Host (gpuIpText i).toList = some (0x0A000000 + u8 (i + 1)) := by
  have hdigits : ∀ c ∈ Nat.toDigits 10 (i + 1), c.isDigit := fun c hc =>
    Nat.isDigit_of_mem_toDigits (by decide) (by decide) hc
  obtain ⟨d, ds, hds⟩ := List.exists_cons_of_ne_nil (Nat.toDigits_ne_nil (n := i + 1) (b := 10))
  have hd : d ≠ '.' := by
    rintro rfl
    have := hdigits '.' (hds ▸ List.mem_cons_self)
    exact absurd this (by decide)
  have htext : (gpuIpText i).toList =
      ['1', '0', '.', '0', '.', '0', '.'] ++ Nat.toDigits 10 (i + 1) := by
    simp [gpuIpText, String.toList_append]
  have hoctet := asciiToIpv4HostFrom_digits 0x0A0000 3 0 (Nat.toDigits 10 (i + 1)) [] hdigits
  rw [List.append_nil, Nat.ofDigitChars_ten_toDigits] at hoctet
  have hstart : asciiToIpv4Host (['1', '0', '.', '0', '.', '0', '.'] ++ Nat.toDigits 10 (i + 1)) =
      asciiToIpv4HostFrom 0x0A0000 (u8 0) 3 (Nat.toDigits 10 (i + 1)) := by
    rw [hds]
    simp [asciiToIpv4Host, asciiToIpv4HostFrom, pushDigit, u8, u32, hd]
  rw [htext, hstart, hoctet, asciiToIpv4HostFrom, if_pos rfl]
  have hlt : u8 (i + 1) < 2 ^ 8 := u8_lt _
  have hor := Nat.two_pow_add_eq_or_of_lt hlt 0x0A0000
  exact congrArg some hor.symm

theorem gpuIp_eq (i : Nat) : gpuIp i = 0x0A000000 + u8 (i + 1) := by
  rw [gpuIp, asciiToIpv4Host_gpuIpText, Option.getD_some]

theorem gpuIp_eq_iff (i j : Nat) : gpuIp i = gpuIp j ↔ i % 256 = j % 256 := by
  rw [gpuIp_eq, gpuIp_eq, u8, u8]
  omega

/-- The part of the address that `QbbNetDevice::Receive` compares with a node id: bits 8 to 23. -/
def ipToNodeId (ip : Nat) : Nat := (ip >>> 8) &&& 0xffff

@[simp] theorem ipToNodeId_gpuIp (i : Nat) : ipToNodeId (gpuIp i) = 0 := by
  have hlt := u8_lt (i + 1)
  have hshift : (0x0A000000 + u8 (i + 1)) >>> 8 = 0x0A0000 := by
    rw [Nat.shiftRight_eq_div_pow]
    omega
  rw [ipToNodeId, gpuIp_eq, hshift]
  rfl

end CollectiveSim.Fabric
