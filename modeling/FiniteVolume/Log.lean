/-!
Diagnostic records. Each carries the place it concerns, so that a failure can be attributed without
a trace of calls.
-/
namespace FiniteVolume

/-- How serious a record is, from detail to abort. -/
inductive Severity where
  | verbose
  | info
  | warning
  /-- The contribution is degraded, commonly to zero; work continues. -/
  | error
  /-- The operation is aborted. -/
  | fatal
  deriving Repr, DecidableEq

namespace Severity

def rank : Severity → Nat
  | verbose => 0
  | info => 1
  | warning => 2
  | error => 3
  | fatal => 4

instance : LE Severity := ⟨fun a b => a.rank ≤ b.rank⟩

instance : DecidableLE Severity := fun a b => inferInstanceAs (Decidable (a.rank ≤ b.rank))

def text : Severity → String
  | verbose => "verbose"
  | info => "info"
  | warning => "warning"
  | error => "error"
  | fatal => "fatal"

end Severity

structure Scope where
  device : String
  region : Option String := none
  contact : Option String := none
  interface : Option String := none
  equation : Option String := none
  deriving Repr, DecidableEq

/-- The parts that are present, outermost first, each with its name in quotes. -/
def Scope.text (s : Scope) : String :=
  let part (label : String) : Option String → String
    | none => ""
    | some name => " " ++ label ++ ": \"" ++ name ++ "\""
  "Device: \"" ++ s.device ++ "\"" ++ part "Region" s.region ++ part "Contact" s.contact
    ++ part "Interface" s.interface ++ part "Equation" s.equation

structure LogRecord where
  severity : Severity
  scope : Scope
  message : String
  deriving Repr, DecidableEq

/-- Severity and place on the first line, the message on the next. -/
def LogRecord.text (r : LogRecord) : String :=
  r.severity.text ++ ": " ++ r.scope.text ++ "\n" ++ r.message

structure Log where
  records : List LogRecord := []
  deriving Repr, DecidableEq

namespace Log

def write (log : Log) (severity : Severity) (scope : Scope) (message : String) : Log :=
  ⟨log.records ++ [⟨severity, scope, message⟩]⟩

def append (log other : Log) : Log := ⟨log.records ++ other.records⟩

def count (log : Log) (severity : Severity) : Nat :=
  log.records.countP (·.severity = severity)

def anyAtLeast (log : Log) (severity : Severity) : Bool :=
  log.records.any fun r => severity ≤ r.severity

def hasFatal (log : Log) : Bool := log.anyAtLeast .fatal

def isEmpty (log : Log) : Bool := log.records.isEmpty

end Log

end FiniteVolume
