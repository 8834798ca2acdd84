import FiniteVolume.Proofs.Numeric.Order

/-!
The larger and the smaller of two values.

Of two numbers each is one of them and bounds the other one. In exact arithmetic every value is a number
(`TotalScalar`); of binary64 values all but one are.
-/
namespace FiniteVolume

/-- The larger and the smaller of two numbers are one of them, as the comparisons say. -/
class LawfulExtremes (α : Type) [Scalar α] : Prop where
  max_pick {x y : α} : IsNumber x → IsNumber y →
    Scalar.max x y = x ∧ Scalar.le y x = true ∨ Scalar.max x y = y ∧ Scalar.le x y = true
  min_pick {x y : α} : IsNumber x → IsNumber y →
    Scalar.min x y = x ∧ Scalar.le x y = true ∨ Scalar.min x y = y ∧ Scalar.le y x = true

class TotalScalar (α : Type) [Scalar α] : Prop extends OrderedScalar α where
  isNumber (x : α) : IsNumber x

theorem LawfulExtremes.of_lt {α : Type} [Scalar α] [OrderedScalar α]
    (max : ∀ {x y : α}, IsNumber x → IsNumber y → Scalar.max x y = if Scalar.lt x y then y else x)
    (min : ∀ {x y : α}, IsNumber x → IsNumber y → Scalar.min x y = if Scalar.lt y x then y else x) :
    LawfulExtremes α where
  max_pick {x y} first second := by
    rw [max first second]
    cases less : Scalar.lt x y with
    | true => exact .inr ⟨rfl, OrderedScalar.le_of_lt less⟩
    | false => exact .inl ⟨rfl, OrderedScalar.le_of_not_lt second first less⟩
  min_pick {x y} first second := by
    rw [min first second]
    cases less : Scalar.lt y x with
    | true => exact .inr ⟨rfl, OrderedScalar.le_of_lt less⟩
    | false => exact .inl ⟨rfl, OrderedScalar.le_of_not_lt first second less⟩

instance : TotalScalar ℚ := ⟨fun _ => decide_eq_true le_rfl⟩

instance : LawfulExtremes ℚ :=
  .of_lt (fun _ _ => by simp [Scalar.max, Scalar.lt]) (fun _ _ => by simp [Scalar.min, Scalar.lt])

theorem Binary64.isNaN_of_isNumber {x : Float} (number : IsNumber x) : ¬x.isNaN = true := by
  obtain ⟨a, -, ranked, -⟩ := (Binary64.le_iff x x).mp (of_decide_eq_true number)
  rw [Binary64.isNaN_iff, ranked]
  exact Option.some_ne_none a

instance : LawfulExtremes Float :=
  .of_lt
    (fun {x y} first second => by
      change Binary64.max x y = if decide (x < y) = true then y else x
      rw [Binary64.max, if_neg (Binary64.isNaN_of_isNumber first),
        if_neg (Binary64.isNaN_of_isNumber second)]
      simp only [decide_eq_true_eq])
    (fun {x y} first second => by
      change Binary64.min x y = if decide (y < x) = true then y else x
      rw [Binary64.min, if_neg (Binary64.isNaN_of_isNumber first),
        if_neg (Binary64.isNaN_of_isNumber second)]
      simp only [decide_eq_true_eq])

end FiniteVolume
