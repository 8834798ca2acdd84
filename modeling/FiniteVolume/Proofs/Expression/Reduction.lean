import Mathlib.Algebra.Ring.Defs
import FiniteVolume.Proofs.Expression.Selection
import FiniteVolume.Proofs.Numeric.Extremes

/-!
Reductions of a field to a number.

A shared value is reduced without going through its copies. In exact arithmetic the result is that of
the copies (`Reduction.applyUniform_eq`), so that a reduction depends on the values of a field and not
on how they are stored. The largest and the smallest value of a list are among its values and bound
them all (`Reduction.combine_bounds`).
-/
namespace FiniteVolume

variable {β α σ : Type}

namespace Reduction

section

variable [Scalar α] {f : α → α → α} {before : α → α → Prop}

/-- Of two numbers, `f` picks one that neither comes after. -/
def Picks (f : α → α → α) (before : α → α → Prop) : Prop :=
  ∀ {x y : α}, IsNumber x → IsNumber y → f x y = x ∧ before y x ∨ f x y = y ∧ before x y

theorem Picks.self (picks : Picks f before) {x : α} (number : IsNumber x) : f x x = x :=
  (picks number number).elim And.left And.left

theorem Picks.refl (picks : Picks f before) {x : α} (number : IsNumber x) : before x x :=
  (picks number number).elim And.right And.right

/-- What is picked along a list is on it or was there before, and nothing comes after it. -/
theorem Picks.foldl (picks : Picks f before)
    (trans : ∀ {x y z : α}, before x y → before y z → before x z) {x : α} {xs : List α}
    (number : IsNumber x) (numbers : ∀ y ∈ xs, IsNumber y) :
    xs.foldl f x ∈ x :: xs ∧ ∀ y ∈ x :: xs, before y (xs.foldl f x) := by
  induction xs generalizing x with
  | nil => simpa using picks.refl number
  | cons y ys ih =>
    obtain ⟨second, numbers⟩ := List.forall_mem_cons.mp numbers
    rw [List.foldl_cons]
    rcases picks number second with ⟨first, order⟩ | ⟨other, order⟩
    · rw [first]
      obtain ⟨member, bounds⟩ := ih number numbers
      obtain ⟨last, rest⟩ := List.forall_mem_cons.mp bounds
      exact ⟨List.mem_cons.mpr ((List.mem_cons.mp member).imp_right (List.mem_cons_of_mem y)),
        List.forall_mem_cons.mpr ⟨last, List.forall_mem_cons.mpr ⟨trans order last, rest⟩⟩⟩
    · rw [other]
      obtain ⟨member, bounds⟩ := ih second numbers
      have last := bounds y List.mem_cons_self
      exact ⟨List.mem_cons_of_mem _ member, List.forall_mem_cons.mpr ⟨trans order last, bounds⟩⟩

theorem combine_bounds (picks : Picks f before)
    (trans : ∀ {x y z : α}, before x y → before y z → before x z) {xs : List α} (some : xs ≠ [])
    (numbers : ∀ x ∈ xs, IsNumber x) :
    combine f xs ∈ xs ∧ ∀ x ∈ xs, before x (combine f xs) := by
  cases xs with
  | nil => exact absurd rfl some
  | cons x rest =>
    obtain ⟨number, numbers⟩ := List.forall_mem_cons.mp numbers
    exact picks.foldl trans number numbers

/-- Among copies of a number there is nothing else to pick. -/
theorem combine_replicate (picks : Picks f before) {x : α} (number : IsNumber x) (len : Nat) :
    combine f (List.replicate len x) = if len = 0 then 0 else x := by
  cases len with
  | zero => rfl
  | succ n =>
    rw [if_neg (Nat.succ_ne_zero n)]
    change (List.replicate n x).foldl f x = x
    induction n with
    | zero => rfl
    | succ n ih => rw [List.replicate_succ, List.foldl_cons, picks.self number, ih]

end

section

variable [BaseScalar β] [Scalar α] [Precision β α] [ExactScalar α] [ExactPrecision β α]

theorem sum_replicate (x : α) (len : Nat) : (List.replicate len x).foldl (· + ·) 0 =
    x * Precision.narrow (BaseScalar.ofNat len : β) := by
  induction len with
  | zero => rw [ExactPrecision.narrow_ofNat_zero, ExactScalar.mul_zero, List.replicate_zero,
      List.foldl_nil]
  | succ n ih =>
    rw [List.replicate_succ', List.foldl_append, ih, List.foldl_cons, List.foldl_nil,
      ExactPrecision.narrow_ofNat_succ, ExactScalar.left_distrib, ExactScalar.mul_comm x 1,
      ExactScalar.one_mul]

/-- Reducing a shared value is reducing its copies, of which there may be none. -/
theorem applyUniform_eq [LawfulExtremes α] (r : Reduction) {x : α} (number : IsNumber x) (len : Nat) :
    r.applyUniform (β := β) x len = r.apply (List.replicate len x) := by
  cases r with
  | sum => exact (sum_replicate x len).symm
  | max => exact (combine_replicate LawfulExtremes.max_pick number len).symm
  | min => exact (combine_replicate LawfulExtremes.min_pick number len).symm

end

end Reduction

section

variable [BaseScalar β] [Scalar α] [Precision β α] [ExactScalar α] [ExactPrecision β α]
  [TotalScalar α] [LawfulExtremes α]

theorem Value.reduce_field (context : String) (r : Reduction) (d : Domain) (x : Field α) :
    Value.reduce (β := β) context r [.field d x] = .ok (.scalar (r.apply x.toArray.toList)) := by
  cases x with
  | uniform v len =>
    rw [Value.reduce, r.applyUniform_eq (TotalScalar.isNumber v), Field.toArray,
      Array.toList_replicate]
  | vector xs => rfl

namespace Expr

open Eval

variable (s : Surroundings) {functions : Registry α} {onLookup : String → StateM σ (LookupResult α)}
  {parameterOf : σ → String → Option β}

theorem valueOf_reduction {name : String} {r : Reduction}
    (known : functions.get? name = some (.reduction r)) {e : Expr β} {start : σ} {d : Domain}
    {x : Field α} (argument : valueOf s functions onLookup parameterOf none e start = .field d x)
    (expected : Option Domain) :
    valueOf s functions onLookup parameterOf expected (call name [e]) start =
      (Value.scalar (r.apply x.toArray.toList)).screened := by
  obtain ⟨⟨⟨v, session⟩, state⟩, ran⟩ : ∃ outcome,
      evalFrom s functions onLookup parameterOf e {} start = outcome := ⟨_, rfl⟩
  obtain rfl : v = .field d x := by rw [← argument, valueOf_eq, ran]; rfl
  unfold evalFrom at ran
  have arguments : ((evalList s functions [e]).run {}).runState onLookup parameterOf start =
      (([.field d x], session), state) := by
    rw [evalList, StateT.run_bind, Query.runState_bind, ran]
    rfl
  have fits : ¬(Function.reduction r : Function α).arity ≠ [e].length := not_not_intro rfl
  rw [valueOf_eq, evalFrom, eval, fst_remember, known]
  dsimp only
  rw [if_neg fits, StateT.run_bind, Query.runState_bind, arguments, apply,
    Value.reduce_field]
  -- A number is on no domain and is read on none.
  change widenTo s expected (Value.scalar _).screened = _
  cases expected <;> unfold Value.screened <;> split <;> rfl

end Expr

end

theorem Registry.get?_builtin_reductions [BaseScalar β] [Scalar α] [Precision β α] :
    ∀ entry ∈ [("vec_sum", Reduction.sum), ("vec_max", .max), ("vec_min", .min)],
      (builtin : Registry α).get? entry.1 = some (.reduction entry.2) := by
  unfold builtin
  simp [List.foldl_append, Table.get?_insert]

/-- Reducing a shared value is reducing its copies, for any number of them. The largest and the smallest
value of a list that is not empty are on it and bound all its values. So what a field reduces to follows
from its values, however they are stored, and the functions by which expressions reduce fields give that
number. -/
theorem reductions_ignore_storage [BaseScalar β] [Scalar α] [Precision β α] [ExactScalar α]
    [ExactPrecision β α] [TotalScalar α] [LawfulExtremes α] :
    (∀ (r : Reduction) (v : α) (n : Nat),
      r.applyUniform (β := β) v n = r.apply (List.replicate n v)) ∧
    (∀ xs : List α, xs ≠ [] →
      (Reduction.max.apply xs ∈ xs ∧ ∀ x ∈ xs, Scalar.le x (Reduction.max.apply xs) = true) ∧
      (Reduction.min.apply xs ∈ xs ∧ ∀ x ∈ xs, Scalar.le (Reduction.min.apply xs) x = true)) ∧
    (∀ (context : String) (r : Reduction) (d d' : Domain) (x x' : Field α), x.toArray = x'.toArray →
      Value.reduce (β := β) context r [.field d x] = Value.reduce (β := β) context r [.field d' x']) ∧
    ∀ entry ∈ [("vec_sum", Reduction.sum), ("vec_max", .max), ("vec_min", .min)],
      ∀ (s : Surroundings) (onLookup : String → StateM σ (LookupResult α))
        (parameterOf : σ → String → Option β) (e : Expr β) (start : σ) (d : Domain) (x : Field α),
        e.valueOf s .builtin onLookup parameterOf none start = .field d x → ∀ expected,
        (Expr.call entry.1 [e]).valueOf s .builtin onLookup parameterOf expected start =
          (Value.scalar (entry.2.apply x.toArray.toList)).screened := by
  refine ⟨fun r v n => r.applyUniform_eq (TotalScalar.isNumber v) n, fun xs some => ⟨?_, ?_⟩, ?_, ?_⟩
  · exact Reduction.combine_bounds LawfulExtremes.max_pick OrderedScalar.le_trans some
      fun x _ => TotalScalar.isNumber x
  · exact Reduction.combine_bounds LawfulExtremes.min_pick
      (fun first second => OrderedScalar.le_trans second first) some fun x _ => TotalScalar.isNumber x
  · intro context r d d' x x' same
    rw [Value.reduce_field, Value.reduce_field, same]
  · intro entry listed s onLookup parameterOf e start d x argument expected
    exact Expr.valueOf_reduction s (Registry.get?_builtin_reductions entry listed) argument expected

def threes (name : String) : LookupResult ℚ :=
  .ok (if name = "shared" then some ⟨.node, .uniform 3 4⟩
    else if name = "listed" then some ⟨.node, .vector #[3, 3, 3, 3]⟩
    else none)

theorem reductions_ignore_storage_of_threes :
    let s : Surroundings := { edgeMap := fun _ => #[], chunking := .serial }
    let onLookup (name : String) : StateM Unit (LookupResult ℚ) := fun _ => (threes name, ())
    let total (e : Expr ℚ) := (Expr.call "vec_sum" [e]).valueOf s .builtin onLookup
      (fun _ _ => none) none ()
    total (.model "shared") = .scalar 12 ∧ total (.model "listed") = .scalar 12 ∧
      Reduction.sum.applyUniform (β := ℚ) (3 : ℚ) 0 = Reduction.sum.apply [] ∧
      Scalar.le 5 (Reduction.max.apply ([2, 5, 3] : List ℚ)) = true := by
  intro s onLookup total
  obtain ⟨uniform, extremes, -, evaluated⟩ :=
    reductions_ignore_storage (β := ℚ) (α := ℚ) (σ := Unit)
  have reduced := evaluated ("vec_sum", .sum) (by decide) s onLookup fun _ _ => none
  refine ⟨?_, ?_, uniform .sum 3 0, (extremes [2, 5, 3] (by decide)).1.2 5 (by decide)⟩
  · exact (reduced (.model "shared") () .node (.uniform 3 4) (by decide +kernel) none).trans
      (by decide +kernel)
  · exact (reduced (.model "listed") () .node (.vector #[3, 3, 3, 3]) (by decide +kernel) none).trans
      (by decide +kernel)

end FiniteVolume
