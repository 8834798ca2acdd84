import FiniteVolume.Numeric.Scalar
import FiniteVolume.Numeric.Binary64

/-!
Double-double numbers: the unevaluated sum of two binary64 numbers whose parts do not overlap.

Sums and products are built from error-free steps, each of which returns a rounded result and its
exact error. A pair whose parts overlap or are not finite is *invalid*; comparison orders every
valid pair before every invalid one.
-/
namespace FiniteVolume

abbrev Extended := Paired Float

namespace Extended

open Binary64

/-! ## Error-free steps -/

/-- Sum of two numbers and its error, for operands ordered by magnitude. -/
def quickTwoSum (a b : Float) : Extended :=
  let s := a + b
  ⟨s, b - (s - a)⟩

def twoSum (a b : Float) : Extended :=
  let s := a + b
  let a' := s - b
  let b' := s - a'
  ⟨s, (a - a') + (b - b')⟩

def twoDiff (a b : Float) : Extended :=
  let s := a - b
  let a' := s + b
  let b' := s - a'
  ⟨s, (a - a') - (b + b')⟩

def twoProd (a b : Float) : Extended :=
  let p := a * b
  ⟨p, fusedMulAdd a b (-p)⟩

/-! ## Arithmetic -/

def ofFloat (x : Float) : Extended := ⟨x, 0⟩

def add (x y : Extended) : Extended :=
  let s := twoSum x.hi y.hi
  let t := twoSum x.lo y.lo
  let v := quickTwoSum s.hi (s.lo + t.hi)
  quickTwoSum v.hi (t.lo + v.lo)

def sub (x y : Extended) : Extended :=
  let s := twoDiff x.hi y.hi
  let t := twoDiff x.lo y.lo
  let v := quickTwoSum s.hi (s.lo + t.hi)
  quickTwoSum v.hi (t.lo + v.lo)

def mul (x y : Extended) : Extended :=
  let p := twoProd x.hi y.hi
  let low := fusedMulAdd x.lo y.hi (fusedMulAdd x.hi y.lo (x.lo * y.lo))
  quickTwoSum p.hi (p.lo + low)

def neg (x : Extended) : Extended := ⟨-x.hi, -x.lo⟩

def addFloat (x : Extended) (f : Float) : Extended :=
  let s := twoSum x.hi f
  quickTwoSum s.hi (x.lo + s.lo)

def mulFloat (x : Extended) (f : Float) : Extended :=
  let p := twoProd x.hi f
  quickTwoSum p.hi (fusedMulAdd x.lo f p.lo)

/-- Quotient by one Newton step on the reciprocal of the leading part. -/
def div (x y : Extended) : Extended :=
  let guess := 1 / y.hi
  let error := quickTwoSum (1 - y.hi * guess) (-(y.lo * guess))
  mul x (addFloat (mulFloat error guess) guess)

/-! ## Validity and order -/

/-- Whether the lower part lies within half a unit of the last place of the upper part. Just below a
power of two that unit is half as large. A tie needs an even upper part. -/
def separated (hi lo : Float) : Bool :=
  let e := biasedExponent hi
  if lo == 0 then true
  else if e = 0 then false
  else
    let shrink := if fraction hi = 0 ∧ isNegative hi ≠ isNegative lo then 1077 else 1076
    let limit := Float.scaleB 1 ((e : Int) - shrink)
    lo.abs < limit || (lo.abs == limit && fraction hi % 2 == 0)

/-- Whether both parts are finite and do not overlap. -/
def isValid (x : Extended) : Bool := x.hi.isFinite && x.lo.isFinite && separated x.hi x.lo

/-- The order of two numbers, if neither holds a part that is no number. -/
def compare? (x y : Extended) : Option Ordering :=
  if x.hi.isNaN || x.lo.isNaN || y.hi.isNaN || y.lo.isNaN then none
  else match isValid x, isValid y with
    | true, true =>
      if x.hi < y.hi then some .lt else if y.hi < x.hi then some .gt
      else if x.lo < y.lo then some .lt else if y.lo < x.lo then some .gt
      else some .eq
    | true, false => some .lt
    | false, true => some .gt
    | false, false => some .eq

def eq (x y : Extended) : Bool := compare? x y == some .eq

def lt (x y : Extended) : Bool := compare? x y == some .lt

def le (x y : Extended) : Bool := lt x y || eq x y

/-- The larger operand, the first on a tie; an invalid operand yields to the other. -/
def max (x y : Extended) : Extended :=
  if !isValid x then y else if !isValid y then x else if le y x then x else y

/-- The smaller operand, the first on a tie; an invalid operand yields to the other. -/
def min (x y : Extended) : Extended :=
  if !isValid x then y else if !isValid y then x else if le x y then x else y

def abs (x : Extended) : Extended :=
  if x.hi > 0 || (x.hi == 0 && !isNegative x.hi && !isNegative x.lo) then x else neg x

def nan : Extended := ⟨0.0 / 0.0, 0.0 / 0.0⟩

def signum (x : Extended) : Extended :=
  if !isValid x then nan else if isNegative x.hi then ofFloat (-1) else ofFloat 1

/-! ## Functions -/

def scale (x : Extended) (k : Int) : Extended := ⟨x.hi.scaleB k, x.lo.scaleB k⟩

def logTwo : Extended := ⟨0.6931471805599453, 2.3190468138462996e-17⟩

/-- Quotient by a binary64 number, corrected by the remainder of the leading quotient. -/
def divFloat (x : Extended) (f : Float) : Extended :=
  let q := x.hi / f
  quickTwoSum q ((sub x (twoProd q f)).hi / f)

/-- The sum of `term * x / (n + 1) + term * x ^ 2 / ((n + 1) * (n + 2)) + …`, to `count` terms. -/
def exponentialTail (x : Extended) : (count n : Nat) → (term : Extended) → Extended
  | 0, _, _ => ofFloat 0
  | count + 1, n, term =>
    let next := divFloat (mul term x) (Float.ofNat (n + 1))
    add next (exponentialTail x count (n + 1) next)

def logTwoInverse : Extended := ⟨1.4426950408889634, 2.0355273740931033e-17⟩

def logThreeHalves : Extended := ⟨0.4054651081081644, -2.8811380259626426e-18⟩

/-- Coefficients of `r * coth (r / 2) - 2` in the square of `r`, from the first power on, that suit
magnitudes of `r` up to half the logarithm of two. -/
def exponentialCoefficients : List Extended :=
  [⟨0.16666666666666666, 8.301559840894034e-18⟩, ⟨-0.0027777777777776512, 1.1664268064351513e-19⟩,
    ⟨6.613756613123634e-05, 3.613966532258575e-21⟩, ⟨-1.6534390027595268e-06, 2.6408090483478682e-23⟩,
    ⟨4.175167193059256e-08, -2.9498379112234134e-24⟩, ⟨-1.0456596683715461e-09, -9.375356617182272e-26⟩]

def polynomial (x : Extended) : List Extended → Extended
  | [] => ofFloat 0
  | [c] => c
  | c :: rest => add (mul (polynomial x rest) x) c

def exponentialOfRemainder (r : Extended) : Extended :=
  let square := mul r r
  let c := sub r (mul square (polynomial square exponentialCoefficients))
  sub (ofFloat 1) (sub (div (mul r c) (addFloat c (-2))) r)

/-- `exp x`: zero and unbounded beyond the range of the leading part, otherwise the exponential of a
remainder modulo the logarithm of two, scaled. The multiple is cut off toward zero after one half is
added, so the remainder of a negative argument goes down to minus three halves of the logarithm and
loses digits there. -/
def exp (x : Extended) : Extended :=
  if x.hi ≤ -744.4400719213812 then ofFloat 0
  else if x.hi ≥ 709.782712893384 then ⟨1.0 / 0.0, 0⟩
  else if x.hi == 0 then ofFloat 1
  else if x.hi.isNaN then nan
  else
    let k := trunc ((mul logTwoInverse x).hi + 0.5)
    let value := exponentialOfRemainder (sub x (mulFloat logTwo k))
    scale value (if k < 0 then -((-k).toUInt64.toNat : Int) else k.toUInt64.toNat)

/-- Terms of the exponential series that matter for arguments up to the logarithm of two. -/
def exponentialTerms : Nat := 28

def expMinusOne (x : Extended) : Extended :=
  if lt x (neg logTwo) || lt logThreeHalves x then addFloat (exp x) (-1)
  else exponentialTail x exponentialTerms 0 (ofFloat 1)

def logStep (s x : Extended) : Extended := add x (addFloat (mul s (exp (neg x))) (-1))

/-- The natural logarithm, by two Newton steps from the logarithm of the leading part. -/
def log (x : Extended) : Extended :=
  if eq x (ofFloat 1) then ofFloat 0
  else if le x (ofFloat 0) then nan
  else logStep x (logStep x (ofFloat x.hi.log))

def sqrt (x : Extended) : Extended :=
  if lt x (ofFloat 0) then nan
  else if x.hi == 0 then ofFloat 0
  else
    let r := 1 / x.hi.sqrt
    let y := x.hi * r
    twoSum y ((sub x (twoProd y y)).hi * (r * 0.5))

def isInteger (x : Extended) : Bool := trunc x.hi == x.hi && trunc x.lo == x.lo

def isOdd (x : Extended) : Bool :=
  let last := if trunc x.lo == 0 then trunc x.hi else trunc x.lo
  last - 2 * trunc (last / 2) != 0

/-- `x` to the power `y` through the logarithm. A negative `x` must be an integer, and the result
takes its sign from the parity of `x`. -/
def pow (x y : Extended) : Extended :=
  match eq x (ofFloat 0), eq y (ofFloat 0) with
  | true, true => nan
  | true, false => ofFloat 0
  | false, true => ofFloat 1
  | false, false =>
    if !isNegative x.hi then exp (mul y (log x))
    else if !isInteger x then nan
    else
      let magnitude := exp (mul y (log (abs x)))
      if isOdd x then neg magnitude else magnitude

def sinh (x : Extended) : Extended := div (sub (exp x) (exp (neg x))) (ofFloat 2)

def cosh (x : Extended) : Extended := div (add (exp x) (exp (neg x))) (ofFloat 2)

def tanh (x : Extended) : Extended :=
  div (sub (exp x) (exp (neg x))) (add (exp x) (exp (neg x)))

def asinh (x : Extended) : Extended := log (add x (sqrt (addFloat (mul x x) 1)))

def acosh (x : Extended) : Extended := log (add x (sqrt (addFloat (mul x x) (-1))))

def atanh (x : Extended) : Extended :=
  div (log (div (addFloat x 1) (addFloat (neg x) 1))) (ofFloat 2)

end Extended

end FiniteVolume
