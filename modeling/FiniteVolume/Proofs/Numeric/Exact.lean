import Mathlib.Algebra.Ring.Defs
import Mathlib.Algebra.Order.Ring.Rat
import Mathlib.Data.Rat.Lemmas
import FiniteVolume.Numeric.Scalar

/-!
Exact arithmetic: scalars whose ring operations satisfy the ring laws. What holds in exact arithmetic
is stated over these; the rational numbers are an example.
-/
namespace FiniteVolume

/-- Sums, differences and products are exact. Nothing is said of the other operations. -/
class ExactScalar (α : Type) [Scalar α] : Prop where
  add_assoc (x y z : α) : x + y + z = x + (y + z)
  zero_add (x : α) : 0 + x = x
  add_comm (x y : α) : x + y = y + x
  neg_add_cancel (x : α) : -x + x = 0
  sub_eq_add_neg (x y : α) : x - y = x + -y
  mul_assoc (x y z : α) : x * y * z = x * (y * z)
  one_mul (x : α) : 1 * x = x
  mul_comm (x y : α) : x * y = y * x
  left_distrib (x y z : α) : x * (y + z) = x * y + x * z

namespace ExactScalar

variable {α : Type} [Scalar α] [ExactScalar α]

theorem add_zero (x : α) : x + 0 = x := by rw [add_comm, zero_add]

theorem right_distrib (x y z : α) : (x + y) * z = x * z + y * z := by
  rw [mul_comm, left_distrib, mul_comm z x, mul_comm z y]

theorem mul_zero (x : α) : x * 0 = 0 := by
  have double : x * 0 + x * 0 = x * 0 := by rw [← left_distrib, zero_add]
  calc x * 0 = -(x * 0) + x * 0 + x * 0 := by rw [neg_add_cancel, zero_add]
    _ = -(x * 0) + x * 0 := by rw [add_assoc, double]
    _ = 0 := neg_add_cancel _

/-- The ring with the operations of the scalars. -/
instance (priority := low) : CommRing α where
  add_assoc := add_assoc
  zero_add := zero_add
  add_zero := add_zero
  add_comm := add_comm
  neg_add_cancel := neg_add_cancel
  sub_eq_add_neg := sub_eq_add_neg
  mul_assoc := mul_assoc
  one_mul := one_mul
  mul_one x := by rw [mul_comm, one_mul]
  mul_comm := mul_comm
  left_distrib := left_distrib
  right_distrib := right_distrib
  mul_zero := mul_zero
  zero_mul x := by rw [mul_comm, mul_zero]
  nsmul := nsmulRec
  zsmul := zsmulRec

end ExactScalar

/-- Exact arithmetic of an integral domain: the test for equality is exact, and a product of non-zero
numbers is not zero. -/
class IntegralScalar (α : Type) [Scalar α] : Prop extends ExactScalar α where
  eq_iff {x y : α} : Scalar.eq x y = true ↔ x = y
  one_ne_zero : (1 : α) ≠ 0
  zero_or_zero_of_mul {x y : α} : x * y = 0 → x = 0 ∨ y = 0

/-- Literals and counts mean in the working type what they mean in the base type. -/
class ExactPrecision (β α : Type) [BaseScalar β] [Scalar α] [Precision β α] : Prop where
  narrow_one : (Precision.narrow (1 : β) : α) = 1
  narrow_neg (x : β) : (Precision.narrow (-x) : α) = -Precision.narrow x
  narrow_ofNat_zero : (Precision.narrow (BaseScalar.ofNat 0 : β) : α) = 0
  narrow_ofNat_succ (n : Nat) : (Precision.narrow (BaseScalar.ofNat (n + 1) : β) : α) =
    Precision.narrow (BaseScalar.ofNat n : β) + 1

/-- Rational numbers. Functions with irrational values are constant. -/
instance : BaseScalar ℚ where
  zero := 0
  one := 1
  eq x y := decide (x = y)
  lt x y := decide (x < y)
  le x y := decide (x ≤ y)
  abs x := if x < 0 then -x else x
  signum x := if x < 0 then -1 else 1
  min x y := if y < x then y else x
  max x y := if x < y then y else x
  sqrt _ := 0
  exp _ := 0
  expMinusOne _ := 0
  log _ := 0
  pow _ _ := 0
  sinh _ := 0
  cosh _ := 0
  tanh _ := 0
  asinh _ := 0
  acosh _ := 0
  atanh _ := 0
  isFinite _ := true
  halvings _ _ := 0
  epsilon := 0
  tiny := 0
  text x := toString x.num ++ "/" ++ toString x.den
  ofDecimal coefficient negated exponent :=
    if negated then mkRat coefficient (10 ^ exponent) else mkRat (coefficient * 10 ^ exponent) 1
  literalText x := toString x.num ++ "/" ++ toString x.den

instance : Precision ℚ ℚ where
  kind := .double
  narrow x := x
  widen x := x
  toPair x := ⟨x, 0⟩
  ofPair p := p.hi + p.lo

instance : ExactScalar ℚ where
  add_assoc := Rat.add_assoc
  zero_add := Rat.zero_add
  add_comm := Rat.add_comm
  neg_add_cancel := Rat.neg_add_cancel
  sub_eq_add_neg := Rat.sub_eq_add_neg
  mul_assoc := Rat.mul_assoc
  one_mul := Rat.one_mul
  mul_comm := Rat.mul_comm
  left_distrib := Rat.mul_add

instance : IntegralScalar ℚ where
  eq_iff := decide_eq_true_iff
  one_ne_zero := by decide
  zero_or_zero_of_mul := mul_eq_zero.mp

theorem ofNat_rat (n : Nat) : (BaseScalar.ofNat n : ℚ) = n := by
  simp [BaseScalar.ofNat, BaseScalar.ofDecimal, Rat.mkRat_one]

instance : ExactPrecision ℚ ℚ where
  narrow_one := rfl
  narrow_neg _ := rfl
  narrow_ofNat_zero := ofNat_rat 0
  narrow_ofNat_succ n := by
    change (BaseScalar.ofNat (n + 1) : ℚ) = BaseScalar.ofNat n + 1
    rw [ofNat_rat, ofNat_rat, Nat.cast_succ]

end FiniteVolume
