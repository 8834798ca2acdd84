import Mathlib.Data.Prod.Lex
import Mathlib.Order.Compare
import FiniteVolume.Numeric.Instances
import FiniteVolume.Proofs.Numeric.Exact

/-!
Comparisons.

The numbers among the values of a scalar type are those that compare with themselves. Comparisons order
them totally, and nothing else compares with anything (`OrderedScalar`). So it is with rational numbers,
with binary64 numbers, where all but one value are numbers, and with double-double numbers.
-/
open Float.Model

namespace FiniteVolume

/-- The value compares with itself. -/
def IsNumber {α : Type} [Scalar α] (x : α) : Prop := Scalar.le x x = true

instance {α : Type} [Scalar α] (x : α) : Decidable (IsNumber x) := inferInstanceAs (Decidable (_ = _))

/-- Comparisons are a total order of the numbers. -/
class OrderedScalar (α : Type) [Scalar α] : Prop where
  le_trans {x y z : α} : Scalar.le x y → Scalar.le y z → Scalar.le x z
  le_total {x y : α} : IsNumber x → IsNumber y → Scalar.le x y ∨ Scalar.le y x
  isNumber_of_le {x y : α} : Scalar.le x y → IsNumber x ∧ IsNumber y
  lt_iff {x y : α} : Scalar.lt x y = true ↔ Scalar.le x y = true ∧ Scalar.le y x = false
  isNumber_zero : IsNumber (0 : α)

namespace OrderedScalar

section

variable {α : Type} [Scalar α] [OrderedScalar α] {x y z : α}

theorem le_of_lt (less : Scalar.lt x y) : Scalar.le x y := (lt_iff.mp less).1

theorem not_le_of_lt (less : Scalar.lt x y) : Scalar.le y x = false := (lt_iff.mp less).2

theorem isNumber_of_lt (less : Scalar.lt x y) : IsNumber x ∧ IsNumber y := isNumber_of_le (le_of_lt less)

/-- Two numbers that are not in one order are in the other. -/
theorem lt_of_not_le (first : IsNumber x) (second : IsNumber y) (not : Scalar.le y x = false) :
    Scalar.lt x y := by
  refine lt_iff.mpr ⟨(le_total first second).resolve_right fun le => ?_, not⟩
  rw [not] at le
  cases le

theorem le_of_not_lt (first : IsNumber x) (second : IsNumber y) (not : Scalar.lt y x = false) :
    Scalar.le x y := by
  refine Bool.of_not_eq_false fun apart => ?_
  rw [lt_of_not_le second first apart] at not
  cases not

theorem lt_of_lt_of_le (less : Scalar.lt x y) (le : Scalar.le y z) : Scalar.lt x z := by
  refine lt_iff.mpr ⟨le_trans (le_of_lt less) le, Bool.eq_false_iff.mpr fun back => ?_⟩
  have apart := not_le_of_lt less
  rw [le_trans le back] at apart
  cases apart

theorem lt_trans (first : Scalar.lt x y) (second : Scalar.lt y z) : Scalar.lt x z :=
  lt_of_lt_of_le first (le_of_lt second)

end

/-- Scalars whose numbers have ranks in a linear order are ordered by them. -/
theorem of_rank {α γ : Type} [Scalar α] [LinearOrder γ] (rank : α → Option γ)
    (le : ∀ x y, Scalar.le x y = true ↔ ∃ a b, rank x = some a ∧ rank y = some b ∧ a ≤ b)
    (lt : ∀ x y, Scalar.lt x y = true ↔ ∃ a b, rank x = some a ∧ rank y = some b ∧ a < b)
    (zero : (rank 0).isSome) : OrderedScalar α := by
  have number : ∀ {x : α}, IsNumber x ↔ ∃ a, rank x = some a := by
    intro x
    rw [IsNumber, le]
    exact ⟨fun ⟨a, _, ranked, _⟩ => ⟨a, ranked⟩, fun ⟨a, ranked⟩ => ⟨a, a, ranked, ranked, le_rfl⟩⟩
  refine ⟨fun first second => ?_, fun first second => ?_, fun below => ?_, ?_, ?_⟩
  · obtain ⟨a, b, ranked, ranked', below⟩ := (le _ _).mp first
    obtain ⟨b', c, again, ranked'', below'⟩ := (le _ _).mp second
    cases ranked'.symm.trans again
    exact (le _ _).mpr ⟨a, c, ranked, ranked'', below.trans below'⟩
  · obtain ⟨a, ranked⟩ := number.mp first
    obtain ⟨b, ranked'⟩ := number.mp second
    rcases LinearOrder.le_total a b with below | above
    · exact .inl ((le _ _).mpr ⟨a, b, ranked, ranked', below⟩)
    · exact .inr ((le _ _).mpr ⟨b, a, ranked', ranked, above⟩)
  · obtain ⟨a, b, ranked, ranked', -⟩ := (le _ _).mp below
    exact ⟨number.mpr ⟨a, ranked⟩, number.mpr ⟨b, ranked'⟩⟩
  · intro x y
    rw [lt, le, Bool.eq_false_iff, ne_eq, le]
    constructor
    · rintro ⟨a, b, ranked, ranked', less⟩
      refine ⟨⟨a, b, ranked, ranked', less.le⟩, ?_⟩
      rintro ⟨b', a', again', again, below⟩
      cases ranked.symm.trans again
      cases ranked'.symm.trans again'
      exact absurd below less.not_ge
    · rintro ⟨⟨a, b, ranked, ranked', below⟩, not⟩
      exact ⟨a, b, ranked, ranked', lt_of_not_ge fun above => not ⟨b, a, ranked', ranked, above⟩⟩
  · exact number.mpr (Option.isSome_iff_exists.mp zero)

end OrderedScalar

instance : OrderedScalar ℚ :=
  .of_rank some (by simp [Scalar.le]) (by simp [Scalar.lt]) rfl

/-! ## Ranks -/

section

variable {γ : Type} [LinearOrder γ]

def compareRanks (i j : Option γ) : Option Ordering :=
  match i, j with
  | some i, some j => some (if i < j then .lt else if i = j then .eq else .gt)
  | _, _ => none

theorem compareRanks_eq_lt_iff {i j : Option γ} :
    compareRanks i j = some .lt ↔ ∃ a b, i = some a ∧ j = some b ∧ a < b := by
  rcases i with - | a <;> rcases j with - | b
  · simp [compareRanks]
  · simp [compareRanks]
  · simp [compareRanks]
  · by_cases less : a < b
    · simp [compareRanks, less]
    · by_cases same : a = b <;> simp [compareRanks, less, same]

theorem eq_of_compareRanks {i j : Option γ} (same : compareRanks i j = some .eq) : i = j := by
  cases i with
  | none => cases same
  | some a =>
    cases j with
    | none => cases same
    | some b =>
      simp only [compareRanks] at same
      split at same
      · cases same
      · split at same
        · simp_all
        · cases same

theorem any_isLE_compareRanks {i j : Option γ} : (compareRanks i j).any (·.isLE) = true ↔
    ∃ a b, i = some a ∧ j = some b ∧ a ≤ b := by
  cases i <;> cases j <;> simp [compareRanks]
  rename_i a b
  rcases lt_trichotomy a b with less | rfl | more
  · simp [less, less.le]
  · simp
  · simp [more.not_gt, more.ne', more.not_ge]

end

namespace Binary64

/-- Where a number stands in the order: by sign and kind, then by exponent, then by mantissa. -/
def level : UnpackedFloat → Option (ℤ ×ₗ ℤ ×ₗ ℤ)
  | .notANumber => none
  | .infinity .negative => some (toLex (-2, toLex (0, 0)))
  | .finite .negative m e _ => some (toLex (-1, toLex (-e, -(m : ℤ))))
  | .zero _ => some (toLex (0, toLex (0, 0)))
  | .finite .positive m e _ => some (toLex (1, toLex (e, (m : ℤ))))
  | .infinity .positive => some (toLex (2, toLex (0, 0)))

/-- Exponents come first, as they do among numbers in canonical form. -/
theorem compare_then (e e' : ℤ) (m m' : ℕ) : (compare e e').then (compare m m') =
    if e < e' ∨ e = e' ∧ m < m' then .lt else if e = e' ∧ m = m' then .eq else .gt := by
  rcases lt_trichotomy e e' with less | rfl | more
  · simp [compare_lt_iff_lt.mpr less, less]
  · rcases lt_trichotomy m m' with less | rfl | more
    · simp [compare_lt_iff_lt.mpr less, less]
    · simp
    · simp [compare_gt_iff_gt.mpr more, more.not_gt, more.ne']
  · simp [compare_gt_iff_gt.mpr more, more.not_gt, more.ne']

theorem compare_eq (a b : UnpackedFloat) : a.compare b = compareRanks (level a) (level b) := by
  rcases a with (_ | _) | _ | s | ⟨_ | _, m, e, pos⟩ <;>
    rcases b with (_ | _) | _ | s' | ⟨_ | _, m', e', pos'⟩ <;>
    dsimp only [UnpackedFloat.compare, level] <;>
    simp [compareRanks, Prod.Lex.toLex_lt_toLex, compare_then]
  iterate 4 rfl
  -- Of two negative numbers, the one with the larger exponent or mantissa is the smaller.
  rcases lt_trichotomy e e' with less | rfl | more
  · simp [less, less.ne, less.not_gt]
  · rcases lt_trichotomy m m' with less | rfl | more
    · simp [less, less.ne, less.not_gt]
    · simp
    · simp [more, more.not_gt, more.ne']
  · simp [more, more.not_gt, more.ne']

def rank (x : Float) : Option (ℤ ×ₗ ℤ ×ₗ ℤ) := level x.toModel.unpack

theorem le_iff (x y : Float) : x ≤ y ↔ ∃ a b, rank x = some a ∧ rank y = some b ∧ a ≤ b := by
  rw [rank, rank, ← any_isLE_compareRanks, ← compare_eq]
  exact decide_eq_true_iff

theorem lt_iff (x y : Float) : x < y ↔ ∃ a b, rank x = some a ∧ rank y = some b ∧ a < b := by
  rw [rank, rank, ← compareRanks_eq_lt_iff, ← compare_eq, ← beq_iff_eq]
  exact decide_eq_true_iff

theorem isNaN_iff (x : Float) : x.isNaN = true ↔ rank x = none := by
  change x.toModel.unpack.isNaN = true ↔ level x.toModel.unpack = none
  cases x.toModel.unpack with
  | notANumber => exact iff_of_true rfl rfl
  | zero s => exact iff_of_false Bool.false_ne_true (Option.some_ne_none _)
  | infinity s => cases s <;> exact iff_of_false Bool.false_ne_true (Option.some_ne_none _)
  | finite s m e pos => cases s <;> exact iff_of_false Bool.false_ne_true (Option.some_ne_none _)

end Binary64

/-- Binary64 numbers: all but one value are numbers. -/
instance : OrderedScalar Float :=
  .of_rank Binary64.rank (fun x y => decide_eq_true_iff.trans (Binary64.le_iff x y))
    (fun x y => decide_eq_true_iff.trans (Binary64.lt_iff x y)) (by decide +kernel)

namespace Extended

/-- Valid pairs come before the others, and by their parts. -/
def rank (x : Extended) : Option (ℤ ×ₗ (ℤ ×ₗ ℤ ×ₗ ℤ) ×ₗ (ℤ ×ₗ ℤ ×ₗ ℤ)) :=
  (Binary64.rank x.hi).bind fun hi => (Binary64.rank x.lo).map fun lo =>
    if isValid x then toLex (0, toLex (hi, lo))
    else toLex (1, toLex (toLex (0, toLex (0, 0)), toLex (0, toLex (0, 0))))

theorem compare?_eq (x y : Extended) : compare? x y = compareRanks (rank x) (rank y) := by
  have nan : ∀ {x : Float}, x.isNaN = (Binary64.rank x).isNone := fun {x} => by
    rw [Bool.eq_iff_iff, Binary64.isNaN_iff, Option.isNone_iff_eq_none]
  have less : ∀ {x y : Float} {a b}, Binary64.rank x = some a → Binary64.rank y = some b →
      (x < y ↔ a < b) := fun {x y a b} ranked ranked' => by simp [Binary64.lt_iff, ranked, ranked']
  unfold compare? rank
  simp only [nan]
  cases hi : Binary64.rank x.hi with
  | none => simp [compareRanks]
  | some a =>
  cases lo : Binary64.rank x.lo with
  | none => simp [compareRanks]
  | some b =>
  cases hi' : Binary64.rank y.hi with
  | none => simp [compareRanks]
  | some c =>
  cases lo' : Binary64.rank y.lo with
  | none => simp [compareRanks]
  | some d =>
  simp only [less hi hi', less hi' hi, less lo lo', less lo' lo]
  cases isValid x <;> cases isValid y <;> simp [compareRanks, Prod.Lex.toLex_lt_toLex]
  rcases lt_trichotomy a c with less | rfl | more
  · simp [less]
  · rcases lt_trichotomy b d with less | rfl | more
    · simp [less]
    · simp
    · simp [more.not_gt, more.ne', more]
  · simp [more.not_gt, more.ne', more]

end Extended

instance : OrderedScalar Extended :=
  .of_rank Extended.rank
    (fun x y => by
      change (Extended.compare? x y == some .lt || Extended.compare? x y == some .eq) = true ↔ _
      rw [Extended.compare?_eq, ← any_isLE_compareRanks]
      rcases compareRanks (Extended.rank x) (Extended.rank y) with _ | (_ | _ | _) <;> simp)
    (fun x y => by
      change (Extended.compare? x y == some .lt) = true ↔ _
      rw [beq_iff_eq, Extended.compare?_eq, compareRanks_eq_lt_iff])
    (by decide +kernel)

end FiniteVolume
