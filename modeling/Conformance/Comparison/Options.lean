import Conformance.Binary.Order
import Conformance.Comparison.Method
import Conformance.Decimal.Reading
import Conformance.Decimal.Style
import Conformance.Text.Blank

namespace Conformance.Comparison

structure Options where
  method : Method := .ulps
  /-- The tolerance; if absent, the default for the method and the type. -/
  precision : Option Double := none
  flush : Bool := false
  minimum : Option Double := none
  maximum : Option Double := none
deriving DecidableEq

def Options.legacy : Options := { method := .decimal }

inductive OptionError where
  | unknown (token : String)
  | missing (name : String)
  | number (name value : String)
  | precision (value : Double)
deriving DecidableEq

def OptionError.message : OptionError → String
  | .unknown token => s!"unknown comparison option '{token}'"
  | .missing name => s!"comparison option '{name}' requires a value"
  | .number name value => s!"invalid number '{value}' for comparison option '{name}'"
  | .precision value =>
    let text := String.ofList (value.text .plain)
    s!"precision {text} must be finite and non-negative"

inductive ValueOption where
  | judge (method : Method)
  | minimum
  | maximum
deriving DecidableEq

namespace ValueOption

def all : List ValueOption :=
  [.judge .ulps, .judge .decimal, .judge .relative, .judge .image, minimum, maximum]

def name : ValueOption → String
  | judge .ulps => "ulps"
  | judge .decimal => "absf"
  | judge .relative => "relf"
  | judge .image => "image"
  | minimum => "minf"
  | maximum => "maxf"

def ofName? (cs : List Char) : Option ValueOption := all.find? fun o => decide (o.name.toList = cs)

end ValueOption

inductive Setting where
  | flush
  | legacy
  | judge (method : Method) (precision : Double)
  | minimum (limit : Double)
  | maximum (limit : Double)
deriving DecidableEq

namespace Setting

def apply (o : Options) : Setting → Options
  | flush => { o with flush := true }
  | legacy => { o with method := .decimal, precision := none }
  | judge m p => { o with method := m, precision := some p }
  | minimum x => { o with minimum := some x }
  | maximum x => { o with maximum := some x }

/-- A tolerance is finite and not below zero. -/
def isPrecision (x : Double) : Bool := x.isFinite && !x.lt (.zero false)

def ofValue (option : ValueOption) (value : List Char) : Except OptionError Setting :=
  match Binary.ofChars? .double value with
  | none => .error (.number option.name (String.ofList value))
  | some x =>
    match option with
    | .judge m => if isPrecision x then .ok (judge m x) else .error (.precision x)
    | .minimum => .ok (minimum x)
    | .maximum => .ok (maximum x)

def ofFlag (token : List Char) : Except OptionError Setting :=
  if token = "flushDenorms".toList then .ok flush
  else if token = "legacy_default".toList then .ok legacy
  else
    match ValueOption.ofName? token with
    | some option => .error (.missing option.name)
    | none => .error (.unknown (String.ofList token))

/-- The first equals sign of a token stands between name and value. -/
def ofToken (token : List Char) : Except OptionError Setting :=
  match token.dropWhile (· ≠ '=') with
  | [] => ofFlag token
  | _ :: value =>
    match ValueOption.ofName? (token.takeWhile (· ≠ '=')) with
    | some option => ofValue option value
    | none => .error (.unknown (String.ofList token))

end Setting

namespace Options

def isSeparator (c : Char) : Bool := decide (c = ',') || Text.isBlank c

def pieces : List Char → List (List Char)
  | [] => [[]]
  | c :: rest =>
    if isSeparator c then [] :: pieces rest
    else
      match pieces rest with
      | [] => [[c]]
      | piece :: more => (c :: piece) :: more

def tokens (text : List Char) : List (List Char) := (pieces text).filter (· ≠ [])

/-- What the tokens set, up to the first that is wrong. -/
def settings (text : List Char) : Except OptionError (List Setting) :=
  (tokens text).mapM Setting.ofToken

def ofChars (text : List Char) : Except OptionError Options := do
  return (← settings text).foldl Setting.apply {}

def parse (text : String) : Except OptionError Options := ofChars text.toList

end Options

end Conformance.Comparison
