import FiniteVolume.Numeric.Extended
import FiniteVolume.Decimal.Text

/-!
The two working precisions: binary64 numbers, which are also the base type, and double-double
numbers above them.
-/
namespace FiniteVolume

instance : BaseScalar Float where
  zero := 0
  one := 1
  eq x y := x == y
  lt x y := x < y
  le x y := x ≤ y
  abs := Float.abs
  signum := Binary64.signum
  min := Binary64.min
  max := Binary64.max
  sqrt := Float.sqrt
  exp := Float.exp
  expMinusOne x :=
    let e := Extended.expMinusOne (Extended.ofFloat x)
    if x.isFinite then e.hi + e.lo else x.exp - 1
  log := Float.log
  pow := Float.pow
  sinh := Float.sinh
  cosh := Float.cosh
  tanh := Float.tanh
  asinh := Float.asinh
  acosh := Float.acosh
  atanh := Float.atanh
  isFinite := Float.isFinite
  halvings _ _ := Binary64.exponentRange
  epsilon := 2.220446049250313e-16
  tiny := 2.2250738585072014e-308
  text := Decimal.plain.write
  ofDecimal := Float.ofScientific
  literalText := Decimal.literal.write

instance : Scalar Extended where
  zero := Extended.ofFloat 0
  one := Extended.ofFloat 1
  add := Extended.add
  sub := Extended.sub
  mul := Extended.mul
  div := Extended.div
  neg := Extended.neg
  eq := Extended.eq
  lt := Extended.lt
  le := Extended.le
  abs := Extended.abs
  signum := Extended.signum
  min := Extended.min
  max := Extended.max
  sqrt := Extended.sqrt
  exp := Extended.exp
  expMinusOne := Extended.expMinusOne
  log := Extended.log
  pow := Extended.pow
  sinh := Extended.sinh
  cosh := Extended.cosh
  tanh := Extended.tanh
  asinh := Extended.asinh
  acosh := Extended.acosh
  atanh := Extended.atanh
  isFinite := Extended.isValid
  halvings _ _ := Binary64.exponentRange
  epsilon := Extended.ofFloat 2.2250738585072014e-308
  tiny := Extended.ofFloat 2.2250738585072014e-308
  text x :=
    Decimal.plain.write x.hi ++ (if Binary64.isNegative x.lo then " - " else " + ")
      ++ Decimal.plain.write x.lo.abs

instance : Precision Float Float where
  kind := .double
  narrow x := x
  widen x := x
  toPair := Extended.ofFloat
  ofPair p := p.hi + p.lo

instance : Precision Float Extended where
  kind := .extended
  narrow := Extended.ofFloat
  widen x := x.hi + x.lo
  toPair x := x
  ofPair x := x

end FiniteVolume
