namespace Conformance

inductive Json where
  | null
  | bool (b : Bool)
  | number (token : List Char)
  /-- The characters between the quotes, escapes unresolved. -/
  | string (token : List Char)
  | array (items : List Json)
  | object (members : List (List Char × Json))

namespace Json

def ofName (name : String) : Json := string name.toList

def ofMembers (members : List (String × Json)) : Json :=
  object (members.map fun m => (m.1.toList, m.2))

def quoted (token : List Char) : List Char := '"' :: token ++ ['"']

mutual

def chars : Json → List Char
  | null => "null".toList
  | bool b => (if b then "true" else "false").toList
  | number token => token
  | string token => quoted token
  | array items => '[' :: itemChars items ++ [']']
  | object members => '{' :: memberChars members ++ ['}']

def itemChars : List Json → List Char
  | [] => []
  | [item] => item.chars
  | item :: rest => item.chars ++ ',' :: itemChars rest

def memberChars : List (List Char × Json) → List Char
  | [] => []
  | [(key, item)] => quoted key ++ ':' :: item.chars
  | (key, item) :: rest => quoted key ++ ':' :: item.chars ++ ',' :: memberChars rest

end

def text (j : Json) : String := String.ofList j.chars

end Json

end Conformance
