import FiniteVolume.Decimal.Shortest

/-!
How binary64 numbers are written. Both notations use the shortest digits that read back.
`plain` is positional at every magnitude and writes an integer without a point; `literal` marks a
number as a real and moves to an exponent far from one.
-/
namespace FiniteVolume.Decimal

structure Style where
  /-- Leading exponents `low ≤ p < high` are positional, all others take an exponent; `none` is
  always positional. -/
  positional : Option (Int × Int)
  /-- Whether a positional integer ends in a point and a zero. -/
  pointZero : Bool

def plain : Style := ⟨none, false⟩

/-- Notation of literals: positional from `1e-4` to below `1e16`. -/
def literal : Style := ⟨some (-4, 16), true⟩

private def dropTrailingZeros : Nat → Nat → Int → Nat × Int
  | 0, c, e => (c, e)
  | fuel + 1, c, e => if c % 10 = 0 ∧ c ≠ 0 then dropTrailingZeros fuel (c / 10) (e + 1) else (c, e)

/-- The same number with no trailing zero in its coefficient. -/
def Digits.trim (d : Digits) : Digits :=
  let (c, e) := dropTrailingZeros (Nat.toDigits 10 d.coefficient).length d.coefficient d.exponent
  ⟨c, e⟩

def Style.render (n : Style) (d : Digits) : String :=
  let ⟨c, e⟩ := d.trim
  let digits := Nat.toDigits 10 c
  let lead : Int := e + digits.length - 1
  let positional := match n.positional with
    | none => true
    | some (low, high) => low ≤ lead && lead < high
  if positional then
    if 0 ≤ e then
      String.ofList (digits ++ List.replicate e.toNat '0') ++ (if n.pointZero then ".0" else "")
    else if 0 ≤ lead then
      let whole := (lead + 1).toNat
      String.ofList (digits.take whole) ++ "." ++ String.ofList (digits.drop whole)
    else
      "0." ++ String.ofList (List.replicate (-lead - 1).toNat '0' ++ digits)
  else
    let fraction := digits.drop 1
    String.ofList (digits.take 1) ++ (if fraction.isEmpty then "" else "." ++ String.ofList fraction)
      ++ "e" ++ toString lead

open Float.Model in
/-- A binary64 number in the given notation. Zero keeps its sign. -/
def Style.write (n : Style) (x : Float) : String :=
  let signed (s : UnpackedFloat.Sign) (text : String) := match s with
    | .negative => "-" ++ text
    | .positive => text
  match (Float.Model.ofBits x.toBits).unpack with
  | .notANumber => "NaN"
  | .infinity s => signed s "inf"
  | .zero s => signed s (if n.pointZero then "0.0" else "0")
  | .finite s m e _ => signed s (n.render (shortest m e))

open Float.Model in
def roundSignificant (count : Nat) (x : Float) : Float :=
  match (Float.Model.ofBits x.toBits).unpack with
  | .finite s m e _ =>
    let d := significant count m e
    let magnitude := Float.ofScientific d.coefficient (d.exponent < 0) d.exponent.natAbs
    match s with
    | .negative => -magnitude
    | .positive => magnitude
  | _ => x

end FiniteVolume.Decimal
