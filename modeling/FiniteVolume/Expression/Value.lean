import FiniteVolume.Expression.Function
import FiniteVolume.Model.Query

/-!
The values that evaluation works with, the faults it reports, and how a function applies to values
of several domains: all operands are first brought to their common domain.
-/
namespace FiniteVolume

inductive EvalError where
  | missingModel (name : String)
  | missingParameter (name : String)
  | model (name : String) (cause : ModelError)
  | incompatibleDomains (context left right : String)
  | lengthMismatch (context : String) (left right : Nat)
  | unknownFunction (name : String)
  | wrongArity (name : String) (expected found : Nat)
  | invalidArgument (function : String)
  | nonFinite (expression : String)
  | invalidExpression (text : String)
  deriving Repr, DecidableEq

namespace EvalError

def message : EvalError → String
  | missingModel name => "could not find a model by the name of " ++ name
  | missingParameter name => "value for \"" ++ name ++ "\" not available"
  | model name cause => "while reading \"" ++ name ++ "\": " ++ cause.message
  | incompatibleDomains context left right =>
    context ++ " cannot combine " ++ left ++ " and " ++ right ++ " arguments"
  | lengthMismatch context left right =>
    context ++ s!" has arguments of length {left} and {right}"
  | unknownFunction name => "unknown function \"" ++ name ++ "\""
  | wrongArity name expected found =>
    "function " ++ name ++ s!" takes {expected} arguments, got {found}"
  | invalidArgument function => "invalid argument while evaluating function " ++ function
  | nonFinite expression => "non-finite value while evaluating " ++ expression
  | invalidExpression text => "could not evaluate expression type for " ++ text

def cause? : EvalError → Option ModelError
  | model _ cause => some cause
  | _ => none

end EvalError

/-- The domain on which two operands combine; a number has none and takes that of the other. -/
def commonDomain (context : String) (left right : Option Domain) :
    Except EvalError (Option Domain) :=
  match left, right with
  | none, d | d, none => .ok d
  | some a, some b =>
    if a.widensTo b then .ok (some b)
    else if b.widensTo a then .ok (some a)
    else .error (.incompatibleDomains context a.fieldText b.fieldText)

inductive Value (α : Type) where
  /-- A number, the same everywhere. -/
  | scalar (x : α)
  | field (d : Domain) (data : Field α)
  /-- Evaluation failed; the faults are on record. -/
  | invalid
  deriving Repr

namespace Value

variable {β α : Type}

def typeText : Value α → String
  | scalar _ => "double"
  | field d _ => d.fieldText
  | invalid => "invalid"

def isInvalid : Value α → Bool
  | invalid => true
  | _ => false

def domain? : Value α → Option Domain
  | field d _ => some d
  | _ => none

variable [Scalar α]

/-- Whether the value is the number zero; a field of zeros is not. -/
def isScalarZero : Value α → Bool
  | scalar x => Scalar.eq x 0
  | _ => false

def isFinite : Value α → Bool
  | scalar x => Scalar.isFinite x
  | field _ data => data.isFinite
  | invalid => true

/-- The value as a field on `d` with `size` elements. Numbers are repeated and edge values are read
on element edges through `edgeMap`. -/
def lift? (chunking : Chunking) (edgeMap : Array Nat) (d : Domain) (size : Nat) :
    Value α → Option (Field α)
  | scalar x => some (.uniform x size)
  | field source data =>
    if source = d then some data
    else if source = .edge ∧ d.isElementEdge then some (data.gather chunking edgeMap)
    else none
  | invalid => none

inductive Operands (α : Type) where
  | scalars (xs : List α)
  | fields (d : Domain) (xs : List (Field α))

/-- The number of elements of a common domain: that of the first operand on it, or else of the
edges it is read through. -/
def commonSize (d : Domain) (edgeMap : Array Nat) (args : List (Value α)) : Nat :=
  (args.findSome? fun
    | field source data => if source = d then some data.size else none
    | _ => none).getD edgeMap.size

/-- Bring a value to the common domain, which must give `size` elements. -/
def operand (s : Surroundings) (context : String) (d : Domain) (size : Nat) (arg : Value α) :
    Except EvalError (Field α) :=
  match arg.lift? s.chunking (s.edgeMap d) d size with
  | none => .error (.incompatibleDomains context arg.typeText d.fieldText)
  | some data =>
    if data.size ≠ size then .error (.lengthMismatch context size data.size) else .ok data

def operands (s : Surroundings) (context : String) (args : List (Value α)) :
    Except EvalError (Operands α) := do
  match ← args.foldlM (fun d arg => commonDomain context d arg.domain?) none with
  | none => return .scalars (args.filterMap fun | scalar x => some x | _ => none)
  | some d =>
    let map := if d.isElementEdge then s.edgeMap d else #[]
    return .fields d (← args.mapM (operand s context d (commonSize d map args)))

/-- Combine three fields elementwise: three shared values give a shared value, and otherwise the
positions of the first field are divided. -/
def zipWith3 (c : Chunking) (f : α → α → α → α) (x y z : Field α) : Field α :=
  match x, y, z with
  | .uniform a len, .uniform b _, .uniform c _ => .uniform (f a b c) len
  | x, y, z =>
    let xs := x.toArray
    let ys := y.toArray
    let zs := z.toArray
    let combine i := f (xs[i]?.getD 0) (ys[i]?.getD 0) (zs[i]?.getD 0)
    .vector (c.map combine (Array.range xs.size))

/-- Apply an elementwise function to operands on one domain. Operands that do not fit its arity are
an invalid argument. -/
def applyTo (c : Chunking) (context : String) (f : Function α) (args : Operands α) :
    Except EvalError (Value α) :=
  match args, f with
  | .scalars [x], .unary f => .ok (scalar (f x))
  | .scalars [x, y], .binary f => .ok (scalar (f x y))
  | .scalars [x, y, z], .ternary f => .ok (scalar (f x y z))
  | .fields d [x], .unary f => .ok (field d (x.map c f))
  | .fields d [x, y], .binary f =>
    match x.zipWith c f y with
    | .ok data => .ok (field d data)
    -- The lengths were compared when the operands were brought to the domain.
    | .error _ => .ok invalid
  | .fields d [x, y, z], .ternary f => .ok (field d (zipWith3 c f x y z))
  | _, _ => .error (.invalidArgument context)

def reduce [BaseScalar β] [Precision β α] (context : String) (r : Reduction) :
    List (Value α) → Except EvalError (Value α)
  | [scalar x] => .ok (scalar x)
  | [field _ (.uniform x len)] => .ok (scalar (r.applyUniform x len))
  | [field _ (.vector xs)] => .ok (scalar (r.apply xs.toList))
  | _ => .error (.invalidArgument context)

end Value

end FiniteVolume
