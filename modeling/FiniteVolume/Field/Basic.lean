import FiniteVolume.Field.Chunked

/-!
The values of one model over its domain: one shared value with a count, or one value per element.
Operations keep the shared form when they can; `Field.toArray` is what a field means either way.
-/
namespace FiniteVolume

inductive Field (α : Type) where
  /-- The same value at every element. -/
  | uniform (value : α) (len : Nat)
  /-- One value per element. -/
  | vector (values : Array α)
  deriving Repr, BEq

structure LengthMismatch where
  left : Nat
  right : Nat
  deriving Repr, DecidableEq

def LengthMismatch.message (e : LengthMismatch) : String :=
  s!"length mismatch: {e.left} vs {e.right}"

namespace Field

variable {β α γ : Type}

def size : Field α → Nat
  | uniform _ len => len
  | vector values => values.size

def toArray : Field α → Array α
  | uniform value len => Array.replicate len value
  | vector values => values

def uniformValue? : Field α → Option α
  | uniform value _ => some value
  | vector _ => none

def get? (f : Field α) (i : Nat) : Option α :=
  match f with
  | uniform value len => if i < len then some value else none
  | vector values => values[i]?

def expand (f : Field α) : Field α := vector f.toArray

def zeros [Scalar α] (len : Nat) : Field α := uniform 0 len

/-- Whether the field is stored as a shared zero. -/
def isZero [Scalar α] (f : Field α) : Bool := f.uniformValue?.any (Scalar.eq · 0)

def isOne [Scalar α] (f : Field α) : Bool := f.uniformValue?.any (Scalar.eq · 1)

/-- Whether every value is finite; a shared value counts even over no elements. -/
def isFinite [Scalar α] : Field α → Bool
  | uniform value _ => Scalar.isFinite value
  | vector values => values.all Scalar.isFinite

/-- Replace the value at an element, if it exists; the field becomes one value per element. -/
def set (f : Field α) (i : Nat) (x : α) : Field α := vector (f.toArray.setIfInBounds i x)

def convert [Precision β α] [Precision β γ] : Field α → Field γ
  | uniform value len => uniform (Precision.convert value) len
  | vector values => vector (values.map Precision.convert)

def map (c : Chunking) (f : α → α) : Field α → Field α
  | uniform value len => uniform (f value) len
  | vector values => vector (c.map f values)

/-- Combine two fields elementwise; two shared values give a shared value. -/
def zipWith (c : Chunking) (f : α → α → α) (x y : Field α) : Except LengthMismatch (Field α) :=
  if x.size ≠ y.size then .error ⟨x.size, y.size⟩
  else .ok <| match x, y with
    | uniform a len, uniform b _ => uniform (f a b) len
    | vector xs, uniform b _ => vector (c.map (f · b) xs)
    | x, vector ys => vector (c.zipWith f x.toArray ys)

def add [Scalar α] (c : Chunking) (x y : Field α) : Except LengthMismatch (Field α) :=
  zipWith c (· + ·) x y

def mul [Scalar α] (c : Chunking) (x y : Field α) : Except LengthMismatch (Field α) :=
  zipWith c (· * ·) x y

def gather [Scalar α] (c : Chunking) (f : Field α) (index : Array Nat) : Field α :=
  match f with
  | uniform value _ => uniform value index.size
  | vector values => vector (c.gather 0 values index)

/-- Zero every element that is not listed: the listed ones are copied onto zeros. Positions outside the
field are ignored. -/
def restrict [Scalar α] (f : Field α) (keep : List Nat) : Field α :=
  vector <| keep.foldl (fun out i => (f.get? i).elim out (out.setIfInBounds i ·))
    (Array.replicate f.size 0)

end Field

end FiniteVolume
