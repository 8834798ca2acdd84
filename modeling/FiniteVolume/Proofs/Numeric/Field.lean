import Mathlib.Algebra.Order.Ring.Defs
import Mathlib.Tactic.Linarith
import FiniteVolume.Proofs.Numeric.Extremes
import FiniteVolume.Proofs.Numeric.Real

/-!
Exact arithmetic of an ordered field.

Besides sums and products, quotients by numbers other than zero, comparisons and magnitudes are exact
(`FieldScalar`); of quotients by zero, of the functions of analysis and of the spacing at which a series
stops nothing is said. The rational and the real numbers are examples. Where literals are exact as well
(`ExactDecimal`), a count in the working type is that count.
-/
namespace FiniteVolume

class FieldScalar (α : Type) [Scalar α] : Prop extends ExactScalar α, TotalScalar α where
  le_antisymm {x y : α} : Scalar.le x y → Scalar.le y x → x = y
  add_le_add {x y : α} (z : α) : Scalar.le x y → Scalar.le (x + z) (y + z)
  mul_pos {x y : α} : Scalar.lt 0 x → Scalar.lt 0 y → Scalar.lt 0 (x * y)
  zero_lt_one : Scalar.lt (0 : α) 1
  div_mul_cancel {x y : α} : y ≠ 0 → x / y * y = x
  abs_eq (x : α) : Scalar.abs x = if Scalar.lt x 0 then -x else x

namespace FieldScalar

variable {α : Type} [Scalar α] [FieldScalar α] {x y : α}

noncomputable instance (priority := low) : LinearOrder α where
  le x y := Scalar.le x y
  lt x y := Scalar.lt x y
  le_refl x := TotalScalar.isNumber x
  le_trans _ _ _ := OrderedScalar.le_trans
  lt_iff_le_not_ge x y := by
    rw [Bool.not_eq_true]
    exact OrderedScalar.lt_iff
  le_antisymm _ _ := le_antisymm
  le_total x y := OrderedScalar.le_total (TotalScalar.isNumber x) (TotalScalar.isNumber y)
  toDecidableLE := Classical.decRel _

theorem lt_test_iff : Scalar.lt x y = true ↔ x < y := .rfl

instance (priority := low) : IsStrictOrderedRing α :=
  have : IsOrderedAddMonoid α := { add_le_add_left := fun _ _ below z => add_le_add z below }
  have : ZeroLEOneClass α := ⟨(lt_test_iff.mp zero_lt_one).le⟩
  have : Nontrivial α := ⟨0, 1, (lt_test_iff.mp zero_lt_one).ne⟩
  .of_mul_pos fun _ _ first second => mul_pos first second

theorem neg_div (nonzero : y ≠ 0) : -x / y = -(x / y) := by
  refine mul_right_cancel₀ nonzero ?_
  rw [div_mul_cancel nonzero, neg_mul, div_mul_cancel nonzero]

theorem abs_neg (x : α) : Scalar.abs (-x) = Scalar.abs x := by
  rw [abs_eq, abs_eq]
  simp only [lt_test_iff, neg_lt_zero, neg_neg]
  rcases lt_trichotomy x 0 with below | rfl | above
  · rw [if_neg below.not_gt, if_pos below]
  · simp
  · rw [if_pos above, if_neg above.not_gt]

end FieldScalar

class ExactDecimal (β α : Type) [BaseScalar β] [Scalar α] [Precision β α] : Prop
    extends ExactPrecision β α where
  narrow_fraction (coefficient exponent : Nat) :
    (Precision.narrow (BaseScalar.ofDecimal coefficient true exponent : β) : α) *
      Precision.narrow (BaseScalar.ofNat (10 ^ exponent) : β) =
    Precision.narrow (BaseScalar.ofNat coefficient : β)

section

variable {β α : Type} [BaseScalar β] [Scalar α] [Precision β α] [FieldScalar α]

theorem ExactPrecision.narrow_ofNat [ExactPrecision β α] (n : Nat) :
    (Precision.narrow (BaseScalar.ofNat n : β) : α) = n := by
  induction n with
  | zero => rw [narrow_ofNat_zero, Nat.cast_zero]
  | succ n ih => rw [narrow_ofNat_succ, ih, Nat.cast_succ]

theorem ExactDecimal.narrow_two [ExactDecimal β α] :
    (Precision.narrow (2.0 : β) : α) = 1 + 1 := by
  have fraction := narrow_fraction (β := β) (α := α) 20 1
  rw [ExactPrecision.narrow_ofNat, ExactPrecision.narrow_ofNat] at fraction
  change Precision.narrow (BaseScalar.ofDecimal 20 true 1 : β) = _
  push_cast at fraction
  linarith

end

instance : FieldScalar ℚ where
  le_antisymm below above := le_antisymm (of_decide_eq_true below) (of_decide_eq_true above)
  add_le_add z below := decide_eq_true (add_le_add_left (of_decide_eq_true below) z)
  mul_pos first second := decide_eq_true (mul_pos (of_decide_eq_true first) (of_decide_eq_true second))
  zero_lt_one := by decide
  div_mul_cancel nonzero := div_mul_cancel₀ _ nonzero
  abs_eq x := by simp [Scalar.abs, Scalar.lt]

instance : ExactDecimal ℚ ℚ where
  narrow_fraction coefficient exponent := by
    change (BaseScalar.ofDecimal coefficient true exponent : ℚ) * BaseScalar.ofNat (10 ^ exponent) =
      BaseScalar.ofNat coefficient
    rw [ofNat_rat, ofNat_rat]
    simp [BaseScalar.ofDecimal, Rat.mkRat_eq_div]

instance : ExactScalar ℝ where
  add_assoc := add_assoc
  zero_add := zero_add
  add_comm := add_comm
  neg_add_cancel := neg_add_cancel
  sub_eq_add_neg := sub_eq_add_neg
  mul_assoc := mul_assoc
  one_mul := one_mul
  mul_comm := mul_comm
  left_distrib := mul_add

instance : TotalScalar ℝ where
  toOrderedScalar := .of_rank some (by simp [Scalar.le]) (by simp [Scalar.lt]) rfl
  isNumber _ := decide_eq_true le_rfl

instance : FieldScalar ℝ where
  le_antisymm below above := le_antisymm (of_decide_eq_true below) (of_decide_eq_true above)
  add_le_add z below := decide_eq_true (add_le_add_left (of_decide_eq_true below) z)
  mul_pos first second := decide_eq_true (mul_pos (of_decide_eq_true first) (of_decide_eq_true second))
  zero_lt_one := decide_eq_true one_pos
  div_mul_cancel nonzero := div_mul_cancel₀ _ nonzero
  abs_eq x := by
    change |x| = if decide (x < 0) = true then -x else x
    rcases lt_or_ge x 0 with below | above
    · simp [below, abs_of_neg]
    · simp [above.not_gt, abs_of_nonneg above]

theorem ofNat_real (n : Nat) : (BaseScalar.ofNat n : ℝ) = n := by
  simp [BaseScalar.ofNat, BaseScalar.ofDecimal]

instance : ExactDecimal ℝ ℝ where
  narrow_one := rfl
  narrow_neg _ := rfl
  narrow_ofNat_zero := (ofNat_real 0).trans Nat.cast_zero
  narrow_ofNat_succ n := by
    change (BaseScalar.ofNat (n + 1) : ℝ) = BaseScalar.ofNat n + 1
    rw [ofNat_real, ofNat_real, Nat.cast_succ]
  narrow_fraction coefficient exponent := by
    change (BaseScalar.ofDecimal coefficient true exponent : ℝ) * BaseScalar.ofNat (10 ^ exponent) =
      BaseScalar.ofNat coefficient
    rw [ofNat_real, ofNat_real]
    simp [BaseScalar.ofDecimal]

end FiniteVolume
