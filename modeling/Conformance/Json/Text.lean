namespace Conformance.Json.Text

def isHexDigit (c : Char) : Bool :=
  c.isDigit || decide ('a' ≤ c ∧ c ≤ 'f') || decide ('A' ≤ c ∧ c ≤ 'F')

def hexValue (c : Char) : Nat :=
  if c.isDigit then c.toNat - '0'.toNat else c.toLower.toNat - 'a'.toNat + 10

def unescaped? : Char → Option Char
  | '"' => some '"'
  | '\\' => some '\\'
  | '/' => some '/'
  | 'b' => some '\x08'
  | 'f' => some '\x0c'
  | 'n' => some '\n'
  | 'r' => some '\r'
  | 't' => some '\t'
  | _ => none

/-- The characters up to the closing quote, and what follows it. Control characters are refused, and
so are escapes that are none. -/
def scan : List Char → Option (List Char × List Char)
  | [] => none
  | '"' :: rest => some ([], rest)
  | '\\' :: 'u' :: a :: b :: c :: d :: rest =>
    if [a, b, c, d].all isHexDigit then
      (scan rest).map fun s => ('\\' :: 'u' :: a :: b :: c :: d :: s.1, s.2)
    else none
  | '\\' :: c :: rest =>
    if (unescaped? c).isSome then (scan rest).map fun s => ('\\' :: c :: s.1, s.2) else none
  | c :: rest => if c < ' ' then none else (scan rest).map fun s => (c :: s.1, s.2)

def charUnits (c : Char) : List Nat :=
  if c.toNat < 0x10000 then [c.toNat]
  else [0xd800 + (c.toNat - 0x10000) / 0x400, 0xdc00 + (c.toNat - 0x10000) % 0x400]

def units : List Char → List Nat
  | [] => []
  | '\\' :: 'u' :: a :: b :: c :: d :: rest =>
    [a, b, c, d].foldl (fun n digit => 16 * n + hexValue digit) 0 :: units rest
  | '\\' :: c :: rest => ((unescaped? c).getD c).toNat :: units rest
  | c :: rest => charUnits c ++ units rest

def isLeading (u : Nat) : Bool := decide (0xd800 ≤ u ∧ u < 0xdc00)

def isTrailing (u : Nat) : Bool := decide (0xdc00 ≤ u ∧ u < 0xe000)

/-- The text of UTF-16 units, in which a surrogate without its partner stands for no text. -/
def ofUnits? : List Nat → Option (List Char)
  | [] => some []
  | [u] => if isLeading u || isTrailing u then none else some [Char.ofNat u]
  | u :: v :: rest =>
    if isTrailing u then none
    else if isLeading u then
      if isTrailing v then
        (ofUnits? rest).map (Char.ofNat (0x10000 + 0x400 * (u - 0xd800) + (v - 0xdc00)) :: ·)
      else none
    else (ofUnits? (v :: rest)).map (Char.ofNat u :: ·)

def decode (token : List Char) : Option String := (ofUnits? (units token)).map String.ofList

end Conformance.Json.Text
