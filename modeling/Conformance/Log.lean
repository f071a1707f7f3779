namespace Conformance

inductive LogLevel where
  | trace
  | debug
  | info
  | warn
deriving DecidableEq

def LogLevel.name : LogLevel → String
  | trace => "trace"
  | debug => "debug"
  | info => "info"
  | warn => "warn"

structure LogRecord where
  level : LogLevel
  text : String
deriving DecidableEq

/-- A result and the records written on the way to it, in order. -/
structure Logged (α : Type) where
  records : List LogRecord
  result : α

def Logged.after {α : Type} (records : List LogRecord) (rest : Logged α) : Logged α :=
  ⟨records ++ rest.records, rest.result⟩

end Conformance
