import Mathlib
import CollectiveSim.Framework.MachineInt

/-!
# XML elements

What `ParseAlgoXml` sees of a document: elements with attributes, and other nodes, which it skips.
-/

namespace CollectiveSim.Msccl

open Framework

inductive XmlNode
  | element (name : String) (attributes : List (String × String)) (children : List XmlNode)
  | other

namespace XmlNode

def children : XmlNode → List XmlNode
  | element _ _ children => children
  | other => []

/-- `xmlGetProp`. -/
def getProp (node : XmlNode) (prop : String) : Option String :=
  match node with
  | element _ attributes _ => attributes.lookup prop
  | other => none

def isElement (name : String) : XmlNode → Bool
  | element name' _ _ => name' = name
  | other => false

/-- The child elements of one name, in document order. -/
def childElements (node : XmlNode) (name : String) : List XmlNode :=
  node.children.filter (isElement name)

end XmlNode

/-- The value of the leading digits. -/
def digitsValue : List Char → Nat → Nat
  | c :: cs, n => if c.isDigit then digitsValue cs (10 * n + (c.toNat - '0'.toNat)) else n
  | [], n => n

/-- The characters that `isspace` skips. -/
def isSpace (c : Char) : Bool := c = ' ' || (9 ≤ c.toNat && c.toNat ≤ 13)

/-- `atoi`: the value that `strtol` reads, saturated to 64 bits and cut to 32. -/
def atoi (text : String) : Int :=
  let value : Int :=
    match text.toList.dropWhile isSpace with
    | '-' :: cs => -(digitsValue cs 0 : Int)
    | '+' :: cs => digitsValue cs 0
    | cs => digitsValue cs 0
  i32 (max (-2 ^ 63) (min (2 ^ 63 - 1) value))

end CollectiveSim.Msccl
