import Mathlib
import CollectiveSim.Framework.Outcome
import CollectiveSim.Msccl.Parser

/-!
# Forwarding rules for switches

`AlgoTopology::ParseSwitchJson` turns on custom forwarding for the switches of a document and adds
their rules, one after the other. Whatever the JSON library throws is caught and becomes one error.
-/

namespace CollectiveSim.Msccl

open Framework

/-- A JSON value. The members of an object are in the order of its map, every key once. Of a number
with a fraction only the integer part is ever read. -/
inductive Json
  | null
  | bool (b : Bool)
  | number (value : Int)
  | float (integerPart : Int)
  | string (s : String)
  | array (values : List Json)
  | object (members : List (String × Json))

abbrev jsonParseError {α : Type} : Parse α := .error .jsonParseError

namespace Json

/-- `at`. -/
def get (key : String) : Json → Parse Json
  | object members =>
      match members.lookup key with
      | some value => .ok value
      | none => jsonParseError
  | _ => jsonParseError

def getString : Json → Parse String
  | string s => .ok s
  | _ => jsonParseError

/-- `get<int>`, which also takes truth values. -/
def getInt : Json → Parse Int
  | bool b => .ok (if b then 1 else 0)
  | number value => .ok (i32 value)
  | float integerPart => .ok (i32 integerPart)
  | _ => jsonParseError

/-- `value(key, default)` for a number. -/
def valueInt (key : String) (default : Int) : Json → Parse Int
  | object members =>
      match members.lookup key with
      | some value => value.getInt
      | none => .ok default
  | _ => jsonParseError

/-- `items`: the keys of an array are its indices, and any other value stands under the empty key. -/
def items : Json → List (String × Json)
  | object members => members
  | array values => values.mapIdx fun i value => (toString i, value)
  | null => []
  | value => [("", value)]

end Json

/-- Sign and digits at the start of a text; `none` when there are no digits. -/
def readInteger (text : String) : Option (Bool × Nat) :=
  let digits (negative : Bool) (cs : List Char) : Option (Bool × Nat) :=
    match cs with
    | c :: _ => if c.isDigit then some (negative, digitsValue cs 0) else none
    | [] => none
  match text.toList.dropWhile isSpace with
  | '-' :: cs => digits true cs
  | '+' :: cs => digits false cs
  | cs => digits false cs

/-- `std::stoi`, which throws when the value is no `int`. -/
def stoi (text : String) : Parse Int :=
  match readInteger text with
  | none => jsonParseError
  | some (negative, n) =>
      let value : Int := if negative then -n else n
      if -2 ^ 31 ≤ value ∧ value < 2 ^ 31 then .ok value else jsonParseError

/-- `std::stoul` cut to 32 bits; a sign negates modulo `2 ^ 64`. -/
def stoul (text : String) : Parse Nat :=
  match readInteger text with
  | none => jsonParseError
  | some (negative, n) =>
      if n < 2 ^ 64 then .ok (u32 (if negative then (2 ^ 64 - n) % 2 ^ 64 else n)) else jsonParseError

/-- What a switch does with packets of a flow. -/
structure FlowForwarding where
  customFlowForwarding : Bool
  flowForwardingTable : Nat → Option Nat

/-- The node ids of the GPUs and switches, which of these are switch nodes, and the interface of a
switch that leads to a neighbour. -/
structure AlgoTopology where
  gpuNodes : List Nat
  switchNodes : List Nat
  isSwitchNode : Nat → Bool
  resolveOutPort : Nat → Nat → Option Nat

namespace AlgoTopology

variable (t : AlgoTopology)

/-- The node at an index, which must be there. -/
def nodeAt (nodes : List Nat) (i : Int) : Parse Nat :=
  if i < 0 then invalidUse
  else
    match nodes[i.toNat]? with
    | some node => .ok node
    | none => invalidUse

/-- The switch of an entry. -/
def readSwitch (switchIdStr : String) : Parse Nat := do
  let sw ← nodeAt t.switchNodes (← stoi switchIdStr)
  reject (t.isSwitchNode sw = false)
  return sw

/-- The flow id and the port of a rule. -/
def readFlow (sw : Nat) (flow : String × Json) : Parse (Nat × Nat) := do
  let flowId ← stoul flow.1
  let entry := flow.2
  let nextHopType ← (← entry.get "next_hop_type").getString
  let nextHop ← (← entry.get "next_hop").getInt
  let _srcGpu ← entry.valueInt "src_gpu" (-1)
  let _dstGpu ← entry.valueInt "dst_gpu" (-1)
  let _step ← entry.valueInt "step" (-1)
  let target ←
    if nextHopType = "gpu" then nodeAt t.gpuNodes nextHop
    else if nextHopType = "switch" then nodeAt t.switchNodes nextHop
    else invalidUse
  match t.resolveOutPort sw target with
  | some outIfIndex => return (flowId, outIfIndex)
  | none => invalidUse

end AlgoTopology

namespace FlowForwarding

/-- `SetAttribute("CustomFlowForwarding", true)`. -/
def enable (f : FlowForwarding) : FlowForwarding := { f with customFlowForwarding := true }

/-- `AddFlowForwardingRule`. -/
def addFlowForwardingRule (f : FlowForwarding) (rule : Nat × Nat) : FlowForwarding :=
  { f with flowForwardingTable := Function.update f.flowForwardingTable rule.1 (some rule.2) }

/-- Forwarding is turned on and the rules are added. -/
def install (f : FlowForwarding) (rules : List (Nat × Nat)) : FlowForwarding :=
  rules.foldl addFlowForwardingRule f.enable

end FlowForwarding

/-- Every switch's forwarding by its node id. -/
abbrev Switches := Nat → FlowForwarding

/-- One switch changes. -/
def Switches.modify (s : Switches) (sw : Nat) (f : FlowForwarding → FlowForwarding) : Switches :=
  Function.update s sw (f (s sw))

/-- The `switches` object of the document, `none` when that is no JSON or could not be read. -/
def readSwitches (document : Option (Option Json)) : Parse (List (String × Json)) :=
  match document with
  | none => .error .fileReadError
  | some none => jsonParseError
  | some (some root) => do
      match ← root.get "switches" with
      | .object members => return members
      | _ => jsonParseError

namespace AlgoTopology

variable (t : AlgoTopology)

/-- The body of the loop over the rules of a switch. -/
def addFlow (sw : Nat) (s : Switches) (flow : String × Json) : Outcome Switches AlgoParseError :=
  match t.readFlow sw flow with
  | .error e => ⟨s, some e⟩
  | .ok rule => ⟨s.modify sw (·.addFlowForwardingRule rule), none⟩

/-- The body of the loop over the switches. -/
def addSwitch (s : Switches) (entry : String × Json) : Outcome Switches AlgoParseError :=
  match t.readSwitch entry.1 with
  | .error e => ⟨s, some e⟩
  | .ok sw => Outcome.loop (t.addFlow sw) (s.modify sw .enable) entry.2.items

/-- `AlgoTopology::ParseSwitchJson`. -/
def parseSwitchJson (document : Option (Option Json)) (s : Switches) :
    Outcome Switches AlgoParseError :=
  match readSwitches document with
  | .error e => ⟨s, some e⟩
  | .ok members => Outcome.loop t.addSwitch s members

/-- The switch and the rules of an entry without an error. -/
def readEntry (entry : String × Json) : Parse (Nat × List (Nat × Nat)) := do
  let sw ← t.readSwitch entry.1
  let rules ← entry.2.items.mapM (t.readFlow sw)
  return (sw, rules)

end AlgoTopology

end CollectiveSim.Msccl
