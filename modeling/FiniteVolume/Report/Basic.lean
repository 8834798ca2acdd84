import FiniteVolume.Decimal.Text
import FiniteVolume.Numeric.Instances

/-!
Structured reports of values, for tools to read: `Report.json` is their text.

Numbers are written with the fewest digits that read back, or first rounded to a number of
significant digits. Numbers that the format lacks, and the negative zero, are written as texts. The
fields of a record come in the order of their names.
-/
namespace FiniteVolume

inductive Report where
  | null
  | truth (b : Bool)
  | count (n : Nat)
  | real (x : Float)
  /-- A value in two parts. -/
  | parts (x : Extended)
  | text (s : String)
  | list (items : List Report)
  | record (fields : List (String × Report))

namespace Report

mutual

/-- Every number rounded to `n` significant digits, a value in two parts being one number. -/
def rounded (n : Nat) : Report → Report
  | real x => real (Decimal.roundSignificant n x)
  | parts x => real (Decimal.roundSignificant n (x.hi + x.lo))
  | list items => list (roundedList n items)
  | record fields => record (roundedFields n fields)
  | r => r

def roundedList (n : Nat) : List Report → List Report
  | [] => []
  | r :: rest => rounded n r :: roundedList n rest

def roundedFields (n : Nat) : List (String × Report) → List (String × Report)
  | [] => []
  | (name, r) :: rest => (name, rounded n r) :: roundedFields n rest

end

/-! ## Text -/

def hexDigit (n : Nat) : Char := "0123456789abcdef".toList[n]?.getD '0'

/-- A character inside quotes: quotes and backslashes are escaped, and control characters are
written by number. -/
def escape (c : Char) : List Char :=
  if c = '"' ∨ c = '\\' then ['\\', c]
  else if c.toNat < 32 then
    ['\\', 'u', '0', '0', hexDigit (c.toNat / 16), hexDigit (c.toNat % 16)]
  else [c]

def quoted (s : String) : String := "\"" ++ String.ofList (s.toList.flatMap escape) ++ "\""

/-- A number, in quotes unless it is finite and not the negative zero. -/
def number (x : Float) : String :=
  let text := Decimal.literal.write x
  if x.isFinite && !(x == 0 && Binary64.isNegative x) then text else quoted text

mutual

def json : Report → String
  | null => "null"
  | truth b => if b then "true" else "false"
  | count n => toString n
  | real x => number x
  | parts x => "[" ++ number x.hi ++ "," ++ number x.lo ++ "]"
  | text s => quoted s
  | list items => "[" ++ ",".intercalate (jsonList items) ++ "]"
  | record fields =>
    let byName := (jsonFields fields).mergeSort fun a b => a.1 ≤ b.1
    "\x7b" ++ ",".intercalate (byName.map fun (name, body) => quoted name ++ ":" ++ body) ++ "\x7d"

def jsonList : List Report → List String
  | [] => []
  | r :: rest => json r :: jsonList rest

def jsonFields : List (String × Report) → List (String × String)
  | [] => []
  | (name, r) :: rest => (name, json r) :: jsonFields rest

end

def value {α : Type} [Precision Float α] (x : α) : Report :=
  match Precision.kind α with
  | .double => real (Precision.toPair x).hi
  | .extended => parts (Precision.toPair x)

end Report

class Reportable (γ : Type) where
  report : γ → Report

export Reportable (report)

class Components (γ : Type) where
  components : γ → List Report

section

variable {γ δ : Type}

instance : Reportable Report := ⟨id⟩

instance : Reportable Bool := ⟨.truth⟩

instance : Reportable Nat := ⟨.count⟩

instance : Reportable Float := ⟨.real⟩

instance : Reportable String := ⟨.text⟩

instance : Reportable Unit := ⟨fun _ => .text "ok"⟩

instance [Reportable γ] : Reportable (Option γ) :=
  ⟨fun
    | none => .null
    | some x => report x⟩

instance [Reportable γ] : Reportable (List γ) := ⟨fun xs => .list (xs.map report)⟩

instance [Precision Float γ] : Reportable (Array γ) := ⟨fun xs => .list (xs.toList.map .value)⟩

instance (priority := low) [Reportable γ] : Components γ := ⟨fun x => [report x]⟩

instance [Reportable γ] [Components δ] : Components (γ × δ) :=
  ⟨fun p => report p.1 :: Components.components p.2⟩

instance [Reportable γ] [Components δ] : Reportable (γ × δ) :=
  ⟨fun p => .list (Components.components p)⟩

end

end FiniteVolume
