/-!
Decimal digits of positive dyadic numbers `m * 2 ^ e`, in exact integer arithmetic.

`shortest` gives the fewest significant digits whose value still rounds to the given binary64
number, and among those the digits nearest to it; a tie goes to the larger. `significant` rounds
to a given number of digits, a tie going to the even neighbour.
-/
namespace FiniteVolume.Decimal

/-- The decimal number `coefficient * 10 ^ exponent`. -/
structure Digits where
  coefficient : Nat
  exponent : Int
  deriving Repr, DecidableEq

/-- Numerator and denominator of `2 ^ e / 10 ^ k`. -/
def scale (e k : Int) : Nat × Nat :=
  (Nat.pow 2 e.toNat * Nat.pow 10 (-k).toNat, Nat.pow 2 (-e).toNat * Nat.pow 10 k.toNat)

def powerTenLe (k : Int) (m : Nat) (e : Int) : Bool :=
  let (num, den) := scale e k
  den ≤ m * num

/-- The exponent of the leading decimal digit of `m * 2 ^ e`, for positive `m`. The binary
logarithm fixes it up to one. -/
def leadingExponent (m : Nat) (e : Int) : Int :=
  let guess := ((m.log2 : Int) + e) * 30103 / 100000
  if powerTenLe (guess + 1) m e then guess + 1 else guess

/-- The reals that round to `m * 2 ^ e`, in quarters of the unit `2 ^ e`. Below a power of two the
neighbour is only half as far away. The two ends belong to the interval for even `m`. -/
structure RoundingInterval where
  low : Nat
  high : Nat
  closed : Bool

def RoundingInterval.of (m : Nat) (e : Int) : RoundingInterval where
  low := if m = Nat.pow 2 52 ∧ -1074 < e then 4 * m - 1 else 4 * m - 2
  high := 4 * m + 2
  closed := m % 2 == 0

def RoundingInterval.contains (r : RoundingInterval) (num den : Nat) : Bool :=
  if r.closed then r.low * den ≤ num && num ≤ r.high * den
  else r.low * den < num && num < r.high * den

/-- The multiple of `10 ^ k` next to `m * 2 ^ e` that rounds to it, if there is one: of two, the
nearer. -/
def onGrid (m : Nat) (e k : Int) (r : RoundingInterval) (value : Nat) : Option Digits :=
  let (num, den) := scale (e - 2) k
  let below := value * num / den
  let above := below + 1
  let belowFits := r.contains (below * den) num
  let aboveFits := r.contains (above * den) num
  let belowNearer := value * num - below * den < above * den - value * num
  if m ≤ 0 then none
  else if belowFits && (belowNearer || !aboveFits) then some ⟨below, k⟩
  else if aboveFits then some ⟨above, k⟩
  else none

/-- The shortest digits of a positive binary64 number `m * 2 ^ e`: seventeen always suffice. -/
def shortest (m : Nat) (e : Int) : Digits :=
  let lead := leadingExponent m e
  let interval := RoundingInterval.of m e
  let grids := (List.range 18).map fun n : Nat => lead - (n : Int)
  (grids.findSome? fun k => onGrid m e k interval (4 * m)).getD ⟨0, 0⟩

def significant (count : Nat) (m : Nat) (e : Int) : Digits :=
  let k := leadingExponent m e - (count : Int) + 1
  let (num, den) := scale e k
  let below := m * num / den
  let rest := m * num - below * den
  let up := den < 2 * rest || (2 * rest == den && below % 2 == 1)
  ⟨if up then below + 1 else below, k⟩

end FiniteVolume.Decimal
