/-!
The arithmetic that models, equations and updates are written against.

Every computed quantity has a working type `α`. Literals, parameters, coordinates and reported
sizes have a base type `β`; a `Precision` places the base type inside the working type. Only
operations are required here, no laws: floating-point numbers satisfy few of them, while an exact
field satisfies them all.
-/
namespace FiniteVolume

/-- The operations on values of one type. Comparisons are Boolean tests, all false for operands
that are not ordered. -/
class Scalar (α : Type) extends Zero α, One α, Add α, Sub α, Mul α, Div α, Neg α where
  eq : α → α → Bool
  lt : α → α → Bool
  le : α → α → Bool
  abs : α → α
  /-- One with the sign of the argument, also for a zero. -/
  signum : α → α
  min : α → α → α
  max : α → α → α
  sqrt : α → α
  exp : α → α
  /-- `exp x - 1` without cancellation near zero. -/
  expMinusOne : α → α
  log : α → α
  pow : α → α → α
  sinh : α → α
  cosh : α → α
  tanh : α → α
  asinh : α → α
  acosh : α → α
  atanh : α → α
  isFinite : α → Bool
  /-- A number of halvings that brings the magnitude of the first below a positive second. -/
  halvings : α → α → Nat
  /-- Relative spacing below which series stop. -/
  epsilon : α
  /-- Smallest positive normal value. -/
  tiny : α
  /-- Decimal text inside messages and written data. -/
  text : α → String

class BaseScalar (β : Type) extends Scalar β where
  /-- `coefficient * 10 ^ exponent`, the exponent negated when the flag is set. -/
  ofDecimal : (coefficient : Nat) → (negated : Bool) → (exponent : Nat) → β
  /-- Decimal text of a literal. -/
  literalText : β → String

instance (priority := low) {β : Type} [BaseScalar β] : OfScientific β := ⟨BaseScalar.ofDecimal⟩

def BaseScalar.ofNat {β : Type} [BaseScalar β] (n : Nat) : β := ofDecimal n false 0

/-- A value as an unevaluated sum of two parts, the first the larger. -/
structure Paired (β : Type) where
  hi : β
  lo : β
  deriving Repr, DecidableEq

inductive PrecisionKind where
  | double
  | extended
  deriving Repr, DecidableEq

def PrecisionKind.text : PrecisionKind → String
  | .double => "double"
  | .extended => "extended"

/-- How the base type `β` sits inside the working type `α`. Values move between working types
through pairs of base values, the widest form. -/
class Precision (β : outParam Type) (α : Type) where
  kind : PrecisionKind
  narrow : β → α
  widen : α → β
  toPair : α → Paired β
  ofPair : Paired β → α

def Precision.convert {β α γ : Type} [Precision β α] [Precision β γ] (x : α) : γ :=
  ofPair (toPair x)

def Scalar.truth {α : Type} [Scalar α] (b : Bool) : α := if b then 1 else 0

end FiniteVolume
