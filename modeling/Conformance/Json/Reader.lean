import Conformance.Json.Document
import Conformance.Json.Number
import Conformance.Json.Text

namespace Conformance.Json

def isBlank (c : Char) : Bool := decide (c ∈ [' ', '\t', '\n', '\r'])

def skipBlanks (cs : List Char) : List Char := cs.dropWhile isBlank

def afterWord? (word : String) (cs : List Char) : Option (List Char) :=
  if word.toList.isPrefixOf cs then some (cs.drop word.length) else none

def isNumberChar (c : Char) : Bool := c.isDigit || decide (c ∈ ['-', '+', '.', 'e', 'E'])

def scanNumber (cs : List Char) : Option (Json × List Char) :=
  let token := cs.span isNumberChar
  match Numeral.scan token.1 with
  | some (_, []) => some (number token.1, token.2)
  | _ => none

def scanAtom (cs : List Char) : Option (Json × List Char) :=
  match cs with
  | '"' :: rest => (Text.scan rest).map fun s => (string s.1, s.2)
  | 'n' :: _ => (afterWord? "null" cs).map fun rest => (null, rest)
  | 't' :: _ => (afterWord? "true" cs).map fun rest => (bool true, rest)
  | 'f' :: _ => (afterWord? "false" cs).map fun rest => (bool false, rest)
  | _ => scanNumber cs

def scanKey (cs : List Char) : Option (List Char × List Char) :=
  match skipBlanks cs with
  | '"' :: rest =>
    match Text.scan rest with
    | some (key, rest) =>
      match skipBlanks rest with
      | ':' :: rest => some (key, rest)
      | _ => none
    | none => none
  | _ => none

mutual

/-- The value at the start of a text, and what follows it. Two levels of `fuel` are enough for every
character. -/
def scanValue : Nat → List Char → Option (Json × List Char)
  | 0, _ => none
  | fuel + 1, cs =>
    match skipBlanks cs with
    | '[' :: rest =>
      match skipBlanks rest with
      | ']' :: rest => some (array [], rest)
      | _ => (scanItems fuel rest).map fun s => (array s.1, s.2)
    | '{' :: rest =>
      match skipBlanks rest with
      | '}' :: rest => some (object [], rest)
      | _ => (scanMembers fuel rest).map fun s => (object s.1, s.2)
    | cs => scanAtom cs

def scanItems : Nat → List Char → Option (List Json × List Char)
  | 0, _ => none
  | fuel + 1, cs => do
    let item ← scanValue fuel cs
    match skipBlanks item.2 with
    | ']' :: rest => return ([item.1], rest)
    | ',' :: rest =>
      let more ← scanItems fuel rest
      return (item.1 :: more.1, more.2)
    | _ => none

def scanMembers : Nat → List Char → Option (List (List Char × Json) × List Char)
  | 0, _ => none
  | fuel + 1, cs => do
    let key ← scanKey cs
    let item ← scanValue fuel key.2
    match skipBlanks item.2 with
    | '}' :: rest => return ([(key.1, item.1)], rest)
    | ',' :: rest =>
      let more ← scanMembers fuel rest
      return ((key.1, item.1) :: more.1, more.2)
    | _ => none

end

def ofChars? (cs : List Char) : Option Json :=
  match scanValue (2 * cs.length + 2) cs with
  | some (j, rest) => if skipBlanks rest = [] then some j else none
  | none => none

end Conformance.Json
