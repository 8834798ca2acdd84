import FiniteVolume.Numeric.Scalar

/-!
The elementwise functions that expressions may call, beyond those of the scalar itself.

`erf` is summed as a power series near zero and taken from the continued fraction of `erfc` away
from it. The Fermi integral of order one half is found by Newton iteration on its inverse, for which
there is a closed form: a logarithm with a polynomial below a breakpoint, and a degenerate expansion
above it.
-/
namespace FiniteVolume.Special

open Scalar

variable {β α : Type} [BaseScalar β] [Scalar α] [Precision β α]

def lit (v : β) : α := Precision.narrow v

def isTrue (x : α) : Bool := !eq x 0

/-! ## Bernoulli function -/

/-- Arguments of this size or more leave exponentials that vanish beside one. -/
def logEpsilon : α := abs (log epsilon)

/-- `x / (exp x - 1)`. -/
def bernoulli (x : α) : α :=
  if eq x 0 then 1
  else if lt (abs x) logEpsilon then
    let e := expMinusOne x
    if eq x e then 1 / (1 + lit 0.5 * x) else x / e
  else if lt 0 x then x * exp (-x)
  else -x

def bernoulliDx (x : α) : α :=
  if eq x 0 then lit (-0.5)
  else if lt (abs x) logEpsilon then
    let e := expMinusOne x
    if eq x e then (lit (-0.5) - x / lit 3.0) / (1 + x) else (e - x * exp x) / (e * e)
  else if lt 0 x then exp (-x) * (1 - x)
  else -1 - x * exp x

/-! ## Steps and logic -/

/-- One from zero on, else zero. -/
def step (x : α) : α := truth (le 0 x)

def sign (x : α) : α := if lt 0 x then 1 else if lt x 0 then -1 else 0

def not (x : α) : α := truth (!isTrue x)

def and (x y : α) : α := truth (isTrue x && isTrue y)

def or (x y : α) : α := truth (isTrue x || isTrue y)

/-- The second operand where the first is true, else the third. -/
def select (x y z : α) : α := if isTrue x then y else z

/-! ## Error function -/

def twoOverSqrtPi : β := 1.1283791670955126

/-- Below this magnitude the power series is used. -/
def seriesLimit : β := 2.0

/-- Terms after which a series or fraction stops in any case. -/
def maxTerms : Nat := 499

/-- Add the terms `n`, `n + 1`, … of the series of `erf`, stopping at one that no longer matters.
`x2` is the square of the argument. -/
def erfSeriesFrom (x2 : α) : (terms n : Nat) → (term sum : α) → α
  | 0, _, _, sum => sum
  | terms + 1, n, term, sum =>
    let count : α := lit (BaseScalar.ofNat n)
    let term := -term * x2 / count
    let contribution := term / (lit 2.0 * count + 1)
    let sum := sum + contribution
    if le (abs contribution) (epsilon * abs sum) then sum
    else erfSeriesFrom x2 terms (n + 1) term sum

def erfSeries (x : α) : α := erfSeriesFrom (x * x) maxTerms 1 x x * lit twoOverSqrtPi

/-- A value, or the smallest positive number in place of zero. -/
def nonzero (x : α) : α := if eq x 0 then tiny else x

/-- Evaluate the continued fraction of `erfc` from its convergents `numer` and `denom`, stopping at
a factor that no longer matters. -/
def erfcFractionFrom (x : α) : (terms n : Nat) → (value numer denom : α) → α
  | 0, _, value, _, _ => value
  | terms + 1, n, value, numer, denom =>
    let a : α := lit (BaseScalar.ofNat n * 0.5)
    let denom := nonzero (x + a * denom)
    let numer := nonzero (x + a / numer)
    let denom := 1 / denom
    let delta := numer * denom
    let value := value * delta
    if le (abs (delta - 1)) epsilon then value
    else erfcFractionFrom x terms (n + 1) value numer denom

/-- `erfc` from `seriesLimit` on. -/
def erfcFraction (x : α) : α :=
  exp (-x * x) * lit (0.5 * twoOverSqrtPi) / erfcFractionFrom x maxTerms 1 x x 0

def erf (x : α) : α :=
  if lt (abs x) (lit seriesLimit) then erfSeries x
  else if lt 0 x then 1 - erfcFraction x
  else erfcFraction (-x) - 1

def erfc (x : α) : α :=
  if lt (abs x) (lit seriesLimit) then 1 - erfSeries x
  else if lt 0 x then erfcFraction x
  else lit 2.0 - erfcFraction (-x)

def erfDx (x : α) : α := lit twoOverSqrtPi * exp (-x * x)

def erfcDx (x : α) : α := -erfDx x

/-! ## Fermi integral -/

def pi : β := 3.141592653589793

/-- Where the inverse changes to the degenerate expansion. -/
def fermiBreakpoint : β := 8.46296036621705

def fermiOffset : β := -0.0137050034663995

def fermiCoefficients : List β :=
  [0.3535533905932738, -4.9500897298752622e-3, 1.4838577128872821e-4, -4.4256301190009895e-6]

def fermiIterations : Nat := 20

def fermiTolerance : α :=
  lit (match Precision.kind (α := α) with
    | .double => 1e-12
    | .extended => 1e-24)

def fermiLogFrom (r : α) : List β → (power sum : α) → α
  | [], _, sum => sum
  | k :: ks, power, sum => fermiLogFrom r ks (power * r) (sum + lit k * power)

def fermiLog (r : α) : α := fermiLogFrom r fermiCoefficients r (log r)

def fermiLogDxFrom (r : α) : Nat → List β → (power sum : α) → α
  | _, [], _, sum => sum
  | n, k :: ks, power, sum =>
    fermiLogDxFrom r (n + 1) ks (power * r) (sum + lit (k * BaseScalar.ofNat n) * power)

def fermiLogDx (r : α) : α := fermiLogDxFrom r 1 fermiCoefficients 1 (1 / r)

def fermiScale : β := 0.75 * sqrt pi

def fermiShift : β := pi * pi / 6.0

def fermiExpansion (r : α) : α :=
  sqrt (pow (lit fermiScale * r) (lit (4.0 / 3.0)) - lit fermiShift) + lit fermiOffset

def fermiExpansionDx (r : α) : α :=
  lit (0.5 * sqrt pi) * pow (lit fermiScale * r) (lit (1.0 / 3.0)) / fermiExpansion r

/-- The argument at which the Fermi integral is `r`. -/
def invFermi (r : α) : α := if lt r (lit fermiBreakpoint) then fermiLog r else fermiExpansion r

def invFermiDx (r : α) : α :=
  if lt r (lit fermiBreakpoint) then fermiLogDx r else fermiExpansionDx r

/-- Where the iteration starts: the Boltzmann limit for a negative argument, otherwise the inverted
expansion. -/
def fermiGuess (eta : α) : α :=
  if lt eta 0 then exp eta
  else
    let shifted := eta - lit fermiOffset
    pow (shifted * shifted + lit fermiShift) (lit 0.75) / lit fermiScale

/-- Halve a step, at most `times` times, until it leaves `r` positive. -/
def halveStep (r : α) : (times : Nat) → (update : α) → α
  | 0, update => update
  | times + 1, update =>
    if le (update + r) 0 then halveStep r times (update * lit 0.5) else update

/-- The step of the iteration at `r`, halved as often as `r` needs to stay positive. -/
def fermiStep (eta r : α) : α :=
  let update := -(invFermi r - eta) / invFermiDx r
  halveStep r (halvings update r) update

def fermiFrom (eta : α) : (iterations : Nat) → (r : α) → α
  | 0, r => r
  | iterations + 1, r =>
    let update := fermiStep eta r
    let r := r + update
    if le (abs update / (abs r + fermiTolerance)) fermiTolerance then r
    else fermiFrom eta iterations r

/-- The Fermi integral of order one half. -/
def fermi (eta : α) : α := fermiFrom eta fermiIterations (fermiGuess eta)

def fermiDx (eta : α) : α := 1 / invFermiDx (fermi eta)

end FiniteVolume.Special
