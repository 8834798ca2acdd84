import FiniteVolume.Assembly.Records
import FiniteVolume.Numeric.Instances
import FiniteVolume.Proofs.Numeric.Exact

/-!
Conversion between the two precisions.

The laws in `LawfulPrecision` hold of binary64 numbers and of rational ones. Under them, and in exact
arithmetic, a base value that goes through the wider precision comes back as it was (`convert_convert`).
-/
namespace FiniteVolume

/-- How base values and pairs become each other: a base value has no second part, a pair is added up, and
a pair stays as it is. -/
class LawfulPrecision (β : Type) [BaseScalar β] [Precision β β] [Precision β (Paired β)] : Prop where
  toPair_base (x : β) : Precision.toPair x = ⟨x, 0⟩
  ofPair_base (p : Paired β) : Precision.ofPair p = p.hi + p.lo
  toPair_pair (p : Paired β) : Precision.toPair p = p
  ofPair_pair (p : Paired β) : Precision.ofPair p = p

instance : LawfulPrecision Float where
  toPair_base _ := rfl
  ofPair_base _ := rfl
  toPair_pair _ := rfl
  ofPair_pair _ := rfl

section

variable {β : Type} [BaseScalar β] [Precision β β] [Precision β (Paired β)] [LawfulPrecision β]
  [ExactScalar β]

open Precision

/-- The wider precision loses nothing of a base value. -/
theorem Precision.convert_convert (x : β) : (convert (convert x : Paired β) : β) = x := by
  rw [convert, convert, LawfulPrecision.toPair_pair, LawfulPrecision.ofPair_pair,
    LawfulPrecision.toPair_base, LawfulPrecision.ofPair_base, ExactScalar.add_zero]

theorem Records.convert_convert (r : Records β) :
    ((r.convert : Records (Paired β)).convert : Records β) = r := by
  simp [Records.convert, Function.comp_def, Precision.convert_convert]

theorem Precision.map_convert_convert (xs : Array β) :
    (xs.map (convert : β → Paired β)).map (convert : Paired β → β) = xs := by
  simp [Function.comp_def, Precision.convert_convert]

end

/-! ## Pairs of rational numbers -/

/-- The rational number that a pair stands for. -/
def Paired.sum (p : Paired ℚ) : ℚ := p.hi + p.lo

def Paired.ofRat (x : ℚ) : Paired ℚ := ⟨x, 0⟩

instance : Scalar (Paired ℚ) where
  zero := .ofRat 0
  one := .ofRat 1
  add x y := .ofRat (x.sum + y.sum)
  sub x y := .ofRat (x.sum - y.sum)
  mul x y := .ofRat (x.sum * y.sum)
  div x y := .ofRat (x.sum / y.sum)
  neg x := .ofRat (-x.sum)
  eq x y := Scalar.eq x.sum y.sum
  lt x y := Scalar.lt x.sum y.sum
  le x y := Scalar.le x.sum y.sum
  abs x := .ofRat (Scalar.abs x.sum)
  signum x := .ofRat (Scalar.signum x.sum)
  min x y := .ofRat (Scalar.min x.sum y.sum)
  max x y := .ofRat (Scalar.max x.sum y.sum)
  sqrt x := .ofRat (Scalar.sqrt x.sum)
  exp x := .ofRat (Scalar.exp x.sum)
  expMinusOne x := .ofRat (Scalar.expMinusOne x.sum)
  log x := .ofRat (Scalar.log x.sum)
  pow x y := .ofRat (Scalar.pow x.sum y.sum)
  sinh x := .ofRat (Scalar.sinh x.sum)
  cosh x := .ofRat (Scalar.cosh x.sum)
  tanh x := .ofRat (Scalar.tanh x.sum)
  asinh x := .ofRat (Scalar.asinh x.sum)
  acosh x := .ofRat (Scalar.acosh x.sum)
  atanh x := .ofRat (Scalar.atanh x.sum)
  isFinite _ := true
  halvings x y := Scalar.halvings x.sum y.sum
  epsilon := .ofRat Scalar.epsilon
  tiny := .ofRat Scalar.tiny
  text x := Scalar.text x.sum

instance : Precision ℚ (Paired ℚ) where
  kind := .extended
  narrow := .ofRat
  widen := Paired.sum
  toPair p := p
  ofPair p := p

instance : LawfulPrecision ℚ where
  toPair_base _ := rfl
  ofPair_base _ := rfl
  toPair_pair _ := rfl
  ofPair_pair _ := rfl

end FiniteVolume
