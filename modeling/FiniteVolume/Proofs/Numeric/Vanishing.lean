import FiniteVolume.Proofs.Numeric.Order

/-!
Zeros.

The magnitude of a zero is not above zero, and no quotient of it is: it is a zero again or no number
(`ZeroSized`). Binary64 numbers with this property are those that vanish: a zero, of either sign, and
what is no number. They are closed under sums, and everything times one of them is one of them
(`Binary64.Vanishes`). A double-double number vanishes if both of its parts do.
-/
open Float.Model

namespace FiniteVolume

/-- A zero has no size, in whatever unit it is measured. -/
class ZeroSized (β α : Type) [Scalar β] [Scalar α] [Precision β α] : Prop where
  abs {x : α} : Scalar.eq x 0 → Scalar.lt 0 (Precision.widen (Scalar.abs x) : β) = false
  quotient {x y : α} : Scalar.eq x 0 → Scalar.lt 0 (Precision.widen (Scalar.abs x / y) : β) = false

instance : ZeroSized ℚ ℚ where
  abs zero := by simp_all [Scalar.eq, Scalar.lt, Scalar.abs, Precision.widen]
  quotient zero := by simp_all [Scalar.eq, Scalar.lt, Scalar.abs, Precision.widen]

namespace Binary64

def vanishes : UnpackedFloat → Bool
  | .notANumber | .zero _ => true
  | .infinity _ | .finite .. => false

theorem vanishes_iff {u : UnpackedFloat} : vanishes u ↔ u = .notANumber ∨ ∃ s, u = .zero s := by
  cases u with
  | notANumber => exact iff_of_true rfl (.inl rfl)
  | zero s => exact iff_of_true rfl (.inr ⟨s, rfl⟩)
  | infinity | finite =>
    refine iff_of_false Bool.false_ne_true ?_
    rintro (same | ⟨_, same⟩) <;> cases same

theorem vanishes_of_level {u : UnpackedFloat} (zero : level u = some (toLex (0, toLex (0, 0)))) :
    vanishes u := by
  have sign : (level u).map (fun l => (ofLex l).1) = some 0 := by rw [zero]; rfl
  cases u with
  | notANumber => rfl
  | zero s => rfl
  | infinity s => cases s <;> exact absurd sign (by decide)
  | finite s m e pos =>
    cases s with
    | negative => exact absurd (Option.some.inj sign) (show (-1 : ℤ) ≠ 0 by decide)
    | positive => exact absurd (Option.some.inj sign) (show (1 : ℤ) ≠ 0 by decide)

def Vanishes (x : Float) : Prop := vanishes x.toModel.unpack = true

theorem rank_zero : rank 0 = some (toLex (0, toLex (0, 0))) := by decide +kernel

theorem unpack_pack {u : UnpackedFloat} (null : vanishes u) : (pack u).unpack = u := by
  obtain rfl | ⟨_ | _, rfl⟩ := vanishes_iff.mp null <;> rfl

theorem vanishes_pack {u : UnpackedFloat} (null : vanishes u) : Vanishes (.ofModel (pack u)) := by
  rw [Vanishes, unpack_pack null]
  exact null

theorem vanishes_add (spec : Format) {u v : UnpackedFloat} (first : vanishes u) (second : vanishes v) :
    vanishes (u.add spec v) := by
  obtain rfl | ⟨_ | _, rfl⟩ := vanishes_iff.mp first <;>
    obtain rfl | ⟨_ | _, rfl⟩ := vanishes_iff.mp second <;> rfl

theorem vanishes_sub (spec : Format) {u v : UnpackedFloat} (first : vanishes u) (second : vanishes v) :
    vanishes (u.sub spec v) := by
  obtain rfl | ⟨_ | _, rfl⟩ := vanishes_iff.mp first <;>
    obtain rfl | ⟨_ | _, rfl⟩ := vanishes_iff.mp second <;> rfl

theorem vanishes_mul (spec : Format) {u : UnpackedFloat} (null : vanishes u) (v : UnpackedFloat) :
    vanishes (u.mul spec v) := by
  obtain rfl | ⟨s, rfl⟩ := vanishes_iff.mp null <;> cases v <;> rfl

theorem vanishes_div (spec : Format) {u : UnpackedFloat} (null : vanishes u) (v : UnpackedFloat) :
    vanishes (u.div spec v) := by
  obtain rfl | ⟨s, rfl⟩ := vanishes_iff.mp null <;> cases v <;> rfl

theorem vanishes_neg {u : UnpackedFloat} (null : vanishes u) : vanishes u.neg := by
  obtain rfl | ⟨s, rfl⟩ := vanishes_iff.mp null <;> rfl

theorem vanishes_abs {u : UnpackedFloat} (null : vanishes u) : vanishes u.abs := by
  obtain rfl | ⟨s, rfl⟩ := vanishes_iff.mp null <;> rfl

namespace Vanishes

variable {x y z : Float}

theorem add (first : Vanishes x) (second : Vanishes y) : Vanishes (x + y) :=
  vanishes_pack (vanishes_add _ first second)

theorem sub (first : Vanishes x) (second : Vanishes y) : Vanishes (x - y) :=
  vanishes_pack (vanishes_sub _ first second)

theorem mul (null : Vanishes x) (y : Float) : Vanishes (x * y) :=
  vanishes_pack (vanishes_mul _ null _)

theorem div (null : Vanishes x) (y : Float) : Vanishes (x / y) :=
  vanishes_pack (vanishes_div _ null _)

theorem neg (null : Vanishes x) : Vanishes (-x) := vanishes_pack (vanishes_neg null)

theorem abs (null : Vanishes x) : Vanishes x.abs := vanishes_pack (vanishes_abs null)

theorem fusedMulAdd (null : Vanishes x) (y : Float) (rest : Vanishes z) :
    Vanishes (fusedMulAdd x y z) := by
  have same : Binary64.unpack x = x.toModel.unpack := unpack_pack null
  unfold Binary64.fusedMulAdd
  split
  · rename_i finite _ _
    rw [Vanishes, ← same, finite] at null
    cases null
  · exact null.mul y
  · exact (null.mul y).add rest

theorem not_pos (null : Vanishes x) : ¬0 < x := by
  intro pos
  obtain ⟨a, b, ranked, ranked', less⟩ := (Binary64.lt_iff 0 x).mp pos
  cases rank_zero.symm.trans ranked
  rw [rank] at ranked'
  rw [Vanishes] at null
  rcases unpacked : x.toModel.unpack with _ | _ | _ | _ <;> rw [unpacked] at ranked' null <;>
    cases null <;> cases ranked'
  exact less.false

theorem of_rank (zero : rank x = rank 0) : Vanishes x := by
  rw [rank_zero, rank] at zero
  exact vanishes_of_level zero

end Vanishes

theorem vanishes_of_beq {x : Float} (zero : x == 0) : Vanishes x := by
  refine .of_rank (eq_of_compareRanks ?_)
  rw [rank, rank, ← compare_eq, ← beq_iff_eq]
  exact zero

end Binary64

instance : ZeroSized Float Float where
  abs zero := decide_eq_false (Binary64.vanishes_of_beq zero).abs.not_pos
  quotient zero := decide_eq_false ((Binary64.vanishes_of_beq zero).abs.div _).not_pos

namespace Extended

structure Vanishes (x : Extended) : Prop where
  hi : Binary64.Vanishes x.hi
  lo : Binary64.Vanishes x.lo

theorem vanishes_quickTwoSum {a b : Float} (first : Binary64.Vanishes a) (second : Binary64.Vanishes b) :
    Vanishes (quickTwoSum a b) :=
  ⟨first.add second, second.sub ((first.add second).sub first)⟩

namespace Vanishes

variable {x : Extended}

theorem mul (null : Vanishes x) (y : Extended) : Vanishes (mul x y) := by
  have p := null.hi.mul y.hi
  have low := null.lo.fusedMulAdd y.hi (null.hi.fusedMulAdd y.lo (null.lo.mul y.lo))
  exact vanishes_quickTwoSum p ((null.hi.fusedMulAdd y.hi p.neg).add low)

theorem div (null : Vanishes x) (y : Extended) : Vanishes (div x y) := null.mul _

theorem abs (null : Vanishes x) : Vanishes (abs x) := by
  unfold Extended.abs
  split
  · exact null
  · exact ⟨null.hi.neg, null.lo.neg⟩

theorem widen (null : Vanishes x) : Binary64.Vanishes (Precision.widen x) := null.hi.add null.lo

end Vanishes

theorem vanishes_of_eq {x : Extended} (zero : eq x 0) : Vanishes x := by
  have same : rank x = rank 0 := eq_of_compareRanks (by rw [← compare?_eq, ← beq_iff_eq]; exact zero)
  have level : rank 0 =
      some (toLex (0, toLex (toLex (0, toLex (0, 0)), toLex (0, toLex (0, 0))))) := by
    decide +kernel
  rw [level, rank] at same
  obtain ⟨hi, ranked, same⟩ := Option.bind_eq_some_iff.mp same
  obtain ⟨lo, ranked', same⟩ := Option.map_eq_some_iff.mp same
  split at same
  · cases same
    exact ⟨.of_rank (ranked.trans Binary64.rank_zero.symm),
      .of_rank (ranked'.trans Binary64.rank_zero.symm)⟩
  · cases same

end Extended

instance : ZeroSized Float Extended where
  abs zero := decide_eq_false (Extended.vanishes_of_eq zero).abs.widen.not_pos
  quotient zero := decide_eq_false ((Extended.vanishes_of_eq zero).abs.div _).widen.not_pos

end FiniteVolume
