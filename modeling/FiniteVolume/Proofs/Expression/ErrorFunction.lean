import Mathlib.Algebra.Order.Ring.Defs
import FiniteVolume.Expression.Special
import FiniteVolume.Proofs.Numeric.Field

/-!
Symmetries of the error function and its complement.

In exact arithmetic the two add up to one and are symmetric about the origin, on both sides of the limit of
the power series and at it, whatever the exponential is and wherever the series and the fraction stop
(`Special.erf_symmetries`). The series of an argument and of its negative differ in the sign of every term,
so the test that ends one ends the other at the same term. Beyond the limit the fraction is only ever taken
at the magnitude of the argument.
-/
namespace FiniteVolume.Special

open Scalar

variable {β α : Type} [BaseScalar β] [Scalar α] [Precision β α] [FieldScalar α] [ExactDecimal β α]

theorem lit_two : (lit (2.0 : β) : α) = 1 + 1 := ExactDecimal.narrow_two

theorem lit_ofNat (n : Nat) : (lit (BaseScalar.ofNat n : β) : α) = n := ExactPrecision.narrow_ofNat n

/-! ## The series -/

/-- Turning the sign of the terms summed so far turns the sign of the sum, and neither sum ends before
the other. -/
theorem erfSeriesFrom_neg (x2 : α) (terms : Nat) {n : Nat} (pos : 0 < n) (term sum : α) :
    erfSeriesFrom x2 terms n (-term) (-sum) = -erfSeriesFrom x2 terms n term sum := by
  induction terms generalizing n term sum with
  | zero => rfl
  | succ terms ih =>
    have count : (0 : α) < n := Nat.cast_pos.mpr pos
    have odd : (1 + 1 : α) * n + 1 ≠ 0 := by linarith
    simp only [erfSeriesFrom, lit_ofNat, lit_two]
    -- The sign goes through the next term and its share of the sum into the sum.
    rw [neg_mul (-term), FieldScalar.neg_div count.ne', FieldScalar.neg_div odd, ← neg_add,
      FieldScalar.abs_neg, FieldScalar.abs_neg]
    split
    · rfl
    · exact ih n.succ_pos _ _

theorem erfSeries_neg (x : α) : erfSeries (-x) = -erfSeries x := by
  rw [erfSeries, erfSeries, neg_mul_neg, erfSeriesFrom_neg _ _ Nat.one_pos, neg_mul]

/-! ## The branches -/

/-- The series covers the origin, so beyond it every argument has a sign. -/
theorem zero_within_limit : lt (Scalar.abs (0 : α)) (lit (seriesLimit : β)) = true := by
  have origin : Scalar.abs (0 : α) = 0 := by rw [FieldScalar.abs_eq, neg_zero, ite_self]
  rw [origin, seriesLimit, lit_two, FieldScalar.lt_test_iff]
  exact add_pos one_pos one_pos

theorem erf_add_erfc (x : α) : erf x + erfc x = 1 := by
  rw [erf, erfc]
  split
  · exact add_sub_cancel _ _
  · split
    · exact sub_add_cancel _ _
    · rw [lit_two]
      ring

theorem erf_neg (x : α) : erf (-x) = -erf x := by
  rw [erf, erf, FieldScalar.abs_neg]
  by_cases near : lt (Scalar.abs x) (lit (seriesLimit : β)) = true
  · rw [if_pos near, if_pos near, erfSeries_neg]
  · rw [if_neg near, if_neg near]
    simp only [FieldScalar.lt_test_iff]
    -- Both sides take the fraction at the magnitude of the argument.
    rcases lt_trichotomy x 0 with below | rfl | above
    · rw [if_pos (neg_pos.mpr below), if_neg below.not_gt, neg_sub]
    · exact absurd zero_within_limit near
    · rw [if_neg (neg_neg_of_pos above).not_gt, if_pos above, neg_neg, neg_sub]

/-- In exact arithmetic the error function and its complement add up to one, the error function is odd, and
the complement is symmetric about the point one above the origin. Of the exponential, and of the spacing at
which series and fraction stop, nothing is asked. -/
theorem erf_symmetries (x : α) :
    erf x + erfc x = 1 ∧ erf (-x) = -erf x ∧ erfc (-x) = 1 + 1 - erfc x := by
  refine ⟨erf_add_erfc x, erf_neg x, ?_⟩
  have complement : erfc x = 1 - erf x := eq_sub_of_add_eq' (erf_add_erfc x)
  calc erfc (-x) = 1 - erf (-x) := eq_sub_of_add_eq' (erf_add_erfc (-x))
    _ = 1 + 1 - (1 - erf x) := by rw [erf_neg]; ring
    _ = 1 + 1 - erfc x := by rw [complement]

/-- Real numbers with the real exponential, at the limit of the series. -/
theorem erf_symmetries_at_limit : (erf 2 : ℝ) + erfc 2 = 1 ∧ (erf (-2) : ℝ) = -erf 2 ∧
    (erfc (-2) : ℝ) = 1 + 1 - erfc 2 :=
  erf_symmetries 2

end FiniteVolume.Special
