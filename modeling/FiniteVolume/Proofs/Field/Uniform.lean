import FiniteVolume.Proofs.Field.Elements

/-!
Shared values are a matter of storage.

What a field means are its elements, and every operation is one on the elements of its operands
(`Field.Operation.run_eq_onElements`). It does not matter therefore which operands hold a shared
value, and which hold one value per element.
-/
namespace FiniteVolume.Field

variable {β α γ : Type}

/-! ## Expanded fields -/

@[simp] theorem toArray_expand (x : Field α) : x.expand.toArray = x.toArray := rfl

@[simp] theorem size_expand (x : Field α) : x.expand.size = x.size := size_toArray

@[simp] theorem expand_expand (x : Field α) : x.expand.expand = x.expand := rfl

/-- Fields have the same elements exactly when they are the same after expansion. -/
theorem expand_eq_iff {x y : Field α} : x.expand = y.expand ↔ x.toArray = y.toArray := by
  simp [expand]

theorem size_eq_of_expand {x y : Field α} (same : x.expand = y.expand) : x.size = y.size := by
  rw [← size_expand, same, size_expand]

theorem toArray_convert [Precision β α] [Precision β γ] (x : Field α) :
    (convert (β := β) x : Field γ).toArray = x.toArray.map (Precision.convert (β := β)) := by
  cases x <;> simp [convert, toArray]

theorem toArray_map (c : Chunking) (f : α → α) (x : Field α) :
    (x.map c f).toArray = x.toArray.map f := by
  cases x <;> simp [map, toArray, Chunking.map_eq]

/-- A shared value of at least one element is one of the elements. -/
theorem isFinite_eq_all [Scalar α] {x : Field α} (populated : 0 < x.size) :
    x.isFinite = x.toArray.all Scalar.isFinite := by
  cases x with
  | uniform a n =>
    obtain ⟨m, rfl⟩ := Nat.exists_eq_add_of_lt populated
    rw [isFinite, Bool.eq_iff_iff, Array.all_eq_true']
    simp [toArray]
  | vector xs => rfl

/-! ## Combining in place -/

/-- Write to `x` its combination with `y`, which has the same length. A shared value is expanded if
`y` has one value per element. -/
def combineInPlace (c : Chunking) (f : α → α → α) (x y : Field α) :
    ExceptT LengthMismatch (StateM (Field α)) Unit :=
  match x, y with
  | uniform a len, uniform b _ => modify fun _ => uniform (f a b) len
  | _, uniform b _ => modify (·.map c (f · b))
  | _, vector ys => do
    modify expand
    modify fun x => vector (c.zipWith f x.toArray ys)

/-- Combine a field with another in place, unless their lengths differ. -/
def zipInPlace (c : Chunking) (f : α → α → α) (y : Field α) :
    ExceptT LengthMismatch (StateM (Field α)) Unit := do
  let x ← get
  if x.size ≠ y.size then throw ⟨x.size, y.size⟩ else combineInPlace c f x y

/-- The field that is combined becomes the result, and a failure leaves it as it was. -/
theorem run_zipInPlace (c : Chunking) (f : α → α → α) (x y : Field α) :
    (zipInPlace c f y).run.run x = match x.zipWith c f y with
      | .ok z => (.ok (), z)
      | .error e => (.error e, x) := by
  have read : (zipInPlace c f y).run.run x = (if x.size ≠ y.size then throw ⟨x.size, y.size⟩
      else combineInPlace c f x y : ExceptT LengthMismatch (StateM (Field α)) Unit).run.run x := rfl
  rw [read]
  unfold zipWith
  split
  · rfl
  · cases x <;> cases y <;> rfl

/-! ## Operations -/

inductive Operation (α : Type) where
  | map (f : α → α)
  | zipWith (f : α → α → α) (other : Field α)
  | add (other : Field α)
  | mul (other : Field α)
  | gather (index : Array Nat)
  | restrict (keep : List Nat)
  | expand

namespace Operation

/-- The operation with its operand stored one value per element. -/
def expandOperand : Operation α → Operation α
  | zipWith f y => zipWith f y.expand
  | add y => add y.expand
  | mul y => mul y.expand
  | op => op

def InRange (x : Field α) : Operation α → Prop
  | gather index => ∀ i ∈ index, i < x.size
  | _ => True

variable [Scalar α]

def run (c : Chunking) : Operation α → Field α → Except LengthMismatch (Field α)
  | map f, x => .ok (x.map c f)
  | zipWith f y, x => x.zipWith c f y
  | add y, x => x.add c y
  | mul y, x => x.mul c y
  | gather index, x => .ok (x.gather c index)
  | restrict keep, x => .ok (x.restrict keep)
  | expand, x => .ok x.expand

def combine (f : α → α → α) (xs ys : Array α) : Except LengthMismatch (Array α) :=
  if xs.size = ys.size then .ok (Array.zipWith f xs ys) else .error ⟨xs.size, ys.size⟩

def onElements : Operation α → Array α → Except LengthMismatch (Array α)
  | map f, xs => .ok (xs.map f)
  | zipWith f y, xs => combine f xs y.toArray
  | add y, xs => combine (· + ·) xs y.toArray
  | mul y, xs => combine (· * ·) xs y.toArray
  | gather index, xs => .ok (index.map fun i => xs[i]?.getD 0)
  | restrict keep, xs => .ok (xs.mapIdx fun i x => if i ∈ keep then x else 0)
  | expand, xs => .ok xs

omit [Scalar α] in
theorem zipWith_eq_combine (c : Chunking) (f : α → α → α) (x y : Field α) :
    (x.zipWith c f y).map toArray = combine f x.toArray y.toArray := by
  unfold combine
  rw [size_toArray, size_toArray]
  split
  next fits =>
    obtain ⟨z, combined⟩ := zipWith_of_size_eq c f fits
    rw [combined, ← toArray_of_zipWith combined]
    rfl
  next differs =>
    rw [zipWith_of_size_ne c f differs]
    rfl

/-- An operation on fields is one on their elements. -/
theorem run_eq_onElements (c : Chunking) {op : Operation α} {x : Field α} (inRange : op.InRange x) :
    (op.run c x).map toArray = op.onElements x.toArray := by
  cases op with
  | map f => exact congrArg Except.ok (toArray_map c f x)
  | zipWith f y | add y | mul y => exact zipWith_eq_combine c _ x y
  | gather index => exact congrArg Except.ok (toArray_gather c x inRange)
  | restrict keep => exact congrArg Except.ok (toArray_restrict x keep)
  | expand => rfl

omit [Scalar α] in
theorem inRange_congr {op op' : Operation α} {x x' : Field α}
    (sameOp : op'.expandOperand = op.expandOperand) (same : x'.expand = x.expand)
    (inRange : op.InRange x) : op'.InRange x' := by
  cases op <;> cases op' <;> simp_all [expandOperand, InRange, size_eq_of_expand same]

theorem onElements_congr {op op' : Operation α} (sameOp : op'.expandOperand = op.expandOperand) :
    op'.onElements = op.onElements := by
  funext xs
  cases op <;> cases op' <;> simp_all [expandOperand, onElements, expand_eq_iff]

/-- Operands may be replaced by others with the same elements. -/
theorem run_congr (c c' : Chunking) {op op' : Operation α} {x x' : Field α}
    (sameOp : op'.expandOperand = op.expandOperand) (same : x'.expand = x.expand)
    (inRange : op.InRange x) :
    (op'.run c' x').map Field.expand = (op.run c x).map Field.expand := by
  have elements : (op'.run c' x').map toArray = (op.run c x).map toArray := by
    rw [run_eq_onElements c inRange, run_eq_onElements c' (inRange_congr sameOp same inRange),
      onElements_congr sameOp, expand_eq_iff.mp same]
  cases left : op'.run c' x' <;> cases right : op.run c x <;> rw [left, right] at elements <;>
    simp_all [Except.map, Field.expand]

end Operation

end FiniteVolume.Field
