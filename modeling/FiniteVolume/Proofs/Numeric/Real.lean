import Mathlib.Analysis.SpecialFunctions.Arcosh
import Mathlib.Analysis.SpecialFunctions.Arsinh
import Mathlib.Analysis.SpecialFunctions.Artanh
import Mathlib.Analysis.SpecialFunctions.Pow.Real
import FiniteVolume.Numeric.Scalar

/-!
The real numbers, with the functions of analysis.

What depends on exact logarithms and exponentials is stated over these. They have no decimal text, and the
constants of a working precision are those of binary64.
-/
namespace FiniteVolume

open Classical in
noncomputable instance : BaseScalar ℝ where
  zero := 0
  one := 1
  eq x y := decide (x = y)
  lt x y := decide (x < y)
  le x y := decide (x ≤ y)
  abs x := |x|
  signum x := if x < 0 then -1 else 1
  min := min
  max := max
  sqrt := Real.sqrt
  exp := Real.exp
  expMinusOne x := Real.exp x - 1
  log := Real.log
  pow x y := x ^ y
  sinh := Real.sinh
  cosh := Real.cosh
  tanh := Real.tanh
  asinh := Real.arsinh
  acosh := Real.arcosh
  atanh := Real.artanh
  isFinite _ := true
  halvings x y := ⌊|x| / y⌋₊ + 1
  epsilon := 2 ^ (-52 : ℤ)
  tiny := 2 ^ (-1022 : ℤ)
  text _ := ""
  ofDecimal coefficient negated exponent :=
    if negated then coefficient / 10 ^ exponent else coefficient * 10 ^ exponent
  literalText _ := ""

noncomputable instance : Precision ℝ ℝ where
  kind := .double
  narrow x := x
  widen x := x
  toPair x := ⟨x, 0⟩
  ofPair p := p.hi + p.lo

end FiniteVolume
