import Conformance.Json.Reader

namespace Conformance

structure Codec (α : Type) where
  read : Json → Option α
  write : α → Json

namespace Json

def named? (members : List (List Char × Json)) : Option (List (String × Json)) :=
  members.mapM fun m => (Text.decode m.1).map fun key => (key, m.2)

/-- The member of a name, if there is one; two of one name are refused. -/
def member? (members : List (String × Json)) (name : String) : Option (Option Json) :=
  match members.filter fun m => m.1 = name with
  | [] => some none
  | [m] => some (some m.2)
  | _ => none

/-- The fields of a record, as far as they are given: members of an object, or the items of an array
in order. Members that are no field are passed over. -/
def given? (names : List String) : Json → Option (List (Option Json))
  | object members => do
    let members ← named? members
    names.mapM (member? members)
  | array items =>
    if items.length ≤ names.length then
      some (items.map some ++ List.replicate (names.length - items.length) none)
    else none
  | _ => none

def fields? (names : List String) (j : Json) : Option (List Json) := do
  (← j.given? names).mapM id

/-- The label of a variant and what it carries. A bare label carries nothing. -/
def variant? : Json → Option (String × Json)
  | string token => (Text.decode token).map fun label => (label, null)
  | object [(key, j)] => (Text.decode key).map fun label => (label, j)
  | _ => none

def isNull : Json → Bool
  | null => true
  | _ => false

def number? : Json → Option Number
  | number token => Number.ofToken? token
  | _ => none

def ofInt (n : Int) : Json :=
  number (if n < 0 then '-' :: Nat.toDigits 10 n.natAbs else Nat.toDigits 10 n.natAbs)

end Json

namespace Codec

def whole {α : Type} (low : Int) (count : Nat) (ofInt : Int → α) (toInt : α → Int) : Codec α where
  read j := do return ofInt (← (← j.number?).inRange? low count)
  write a := .ofInt (toInt a)

def uint32 : Codec UInt32 := whole 0 UInt32.size (fun n => UInt32.ofNat n.toNat) fun a => a.toNat

def uint64 : Codec UInt64 := whole 0 UInt64.size (fun n => UInt64.ofNat n.toNat) fun a => a.toNat

def int32 : Codec Int32 := whole Int32.minValue.toInt UInt32.size Int32.ofInt Int32.toInt

def binary (f : Format) : Codec (Binary f) where
  read j := j.number?.map (Json.Number.toBinary f)
  write x := if x.isFinite then .number (x.text (.json f)) else .null

def bool : Codec Bool where
  read
    | .bool b => some b
    | _ => none
  write := .bool

def optional {α : Type} (c : Codec α) : Codec (Option α) where
  read j := if j.isNull then some none else (c.read j).map some
  write
    | some a => c.write a
    | none => .null

def label {α : Type} (all : List α) (labelOf : α → String) : Codec α where
  read j := do
    let v ← j.variant?
    if v.2.isNull then all.find? fun a => labelOf a = v.1 else none
  write a := .ofName (labelOf a)

/-- Reads a document and writes it again, every field in its place. -/
def normalize {α : Type} (c : Codec α) (text : String) : Option String := do
  let j ← Json.ofChars? text.toList
  let a ← c.read j
  return (c.write a).text

def parse {α : Type} (c : Codec α) (text : String) : Option α :=
  (Json.ofChars? text.toList).bind c.read

end Codec

end Conformance
