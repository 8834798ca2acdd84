/-!
Operations on binary64 numbers beyond those of `Float`: the fused multiply-add, rounded once from
the exact value, and the tests of bit fields that double-double arithmetic needs.
-/
namespace FiniteVolume.Binary64

open Float.Model

def unpack (x : Float) : UnpackedFloat := (Float.Model.ofBits x.toBits).unpack

/-- The binary64 number nearest to `m * 2 ^ e`, ties to even. -/
def ofScaled (m : Int) (e : Int) : Float :=
  Float.ofBits (pack (.normalize Format.binary64 m e .positive)).toBits

/-- `a * b + c`, rounded once. A zero or an unbounded operand leaves nothing to round twice. -/
def fusedMulAdd (a b c : Float) : Float :=
  match unpack a, unpack b, unpack c with
  | .finite s₁ m₁ e₁ _, .finite s₂ m₂ e₂ _, .finite s₃ m₃ e₃ _ =>
    let product : Int := (s₁ * s₂).apply (m₁ * m₂)
    let addend : Int := s₃.apply m₃
    let e := min (e₁ + e₂) e₃
    ofScaled (product * Nat.pow 2 (e₁ + e₂ - e).toNat + addend * Nat.pow 2 (e₃ - e).toNat) e
  | .finite .., .finite .., .zero _ => a * b
  | _, _, _ => a * b + c

/-- Every finite number is below the smallest positive one times two to this power. -/
def exponentRange : Nat := 1024 + 1074

def isNegative (x : Float) : Bool := x.toBits >>> 63 == 1

def biasedExponent (x : Float) : Nat := (x.toBits >>> 52 &&& 0x7ff).toNat

def fraction (x : Float) : Nat := (x.toBits &&& 0xfffffffffffff).toNat

def trunc (x : Float) : Float := if x < 0 then x.ceil else x.floor

def signum (x : Float) : Float :=
  if x.isNaN then x else if isNegative x then -1 else 1

/-- The larger operand; an operand that is no number yields to the other. -/
def max (x y : Float) : Float :=
  if x.isNaN then y else if y.isNaN then x else if x < y then y else x

def min (x y : Float) : Float :=
  if x.isNaN then y else if y.isNaN then x else if y < x then y else x

end FiniteVolume.Binary64
