import Mathlib.Algebra.BigOperators.Ring.Finset
import FiniteVolume.Proofs.Assembly.Claims
import FiniteVolume.Proofs.Numeric.Exact

/-!
Amounts on rows in exact arithmetic.

What the sums by row and by entry hold for a row is the sum of its records (`Records.amount_eq`). When
records move, a row receives the amounts of its sources, once each (`Records.amount_permute`).
-/
namespace FiniteVolume

open Finset

variable {α κ : Type}

namespace Records

/-! ## Sums under keys -/

section

variable [DecidableEq κ] {below : κ → κ → Bool} {key k : κ} {value : α} {sums : List (κ × α)}

def sumUnder [Zero α] (k : κ) (sums : List (κ × α)) : α := (sums.lookup k).getD 0

theorem sumUnder_cons [Zero α] {x : κ × α} :
    sumUnder k (x :: sums) = if k = x.1 then x.2 else sumUnder k sums := by
  obtain ⟨a, v⟩ := x
  by_cases here : k = a
  · simp [sumUnder, here]
  · simp [sumUnder, List.lookup_cons, here, beq_false_of_ne here]

theorem sumUnder_nil [Zero α] : sumUnder k ([] : List (κ × α)) = 0 := rfl

theorem sumUnder_of_not_mem [Zero α] (absent : k ∉ sums.map Prod.fst) : sumUnder k sums = 0 := by
  induction sums with
  | nil => rfl
  | cons x rest ih =>
    simp only [List.map_cons, List.mem_cons, not_or] at absent
    rw [sumUnder_cons, if_neg absent.1, ih absent.2]

theorem mem_keys_addUnder [Add α] [Zero α] :
    k ∈ (addUnder below key value sums).map Prod.fst ↔ k = key ∨ k ∈ sums.map Prod.fst := by
  induction sums with
  | nil => simp [addUnder]
  | cons x rest ih =>
    by_cases same : key = x.1
    · simp [addUnder, same]
    · by_cases before : below key x.1 = true
      · simp [addUnder, same, before]
      · simp [addUnder, same, before, ih, or_left_comm]

def Sorted (below : κ → κ → Bool) (sums : List (κ × α)) : Prop :=
  sums.Pairwise fun x y => below x.1 y.1 = true

variable (trans : ∀ a b c, below a b = true → below b c = true → below a c = true)
  (total : ∀ a b, a ≠ b → below a b = true ∨ below b a = true) (irrefl : ∀ a, below a a = false)

include trans total

theorem sorted_addUnder [Add α] [Zero α] (sorted : Sorted below sums) :
    Sorted below (addUnder below key value sums) := by
  induction sums with
  | nil => exact List.pairwise_singleton ..
  | cons x rest ih =>
    obtain ⟨first, rest'⟩ := List.pairwise_cons.mp sorted
    by_cases same : key = x.1
    · simp only [addUnder, same, if_true]
      exact List.pairwise_cons.mpr ⟨first, rest'⟩
    · by_cases before : below key x.1 = true
      · simp only [addUnder, same, before, if_true, if_false]
        refine List.pairwise_cons.mpr ⟨fun y member => ?_, sorted⟩
        rcases List.mem_cons.mp member with rfl | member
        · exact before
        · exact trans _ _ _ before (first y member)
      · simp only [addUnder, same, before, if_false]
        refine List.pairwise_cons.mpr ⟨fun y member => ?_, ih rest'⟩
        have keys := mem_keys_addUnder.mp (List.mem_map_of_mem (f := Prod.fst) member)
        rcases keys with here | there
        · rw [here]
          exact (total _ _ same).resolve_left before
        · obtain ⟨z, inside, equal⟩ := List.mem_map.mp there
          exact equal ▸ first z inside

include irrefl

omit total in
theorem sumUnder_addUnder [Scalar α] [ExactScalar α] (sorted : Sorted below sums) :
    sumUnder k (addUnder below key value sums) =
      sumUnder k sums + if key = k then value else 0 := by
  induction sums with
  | nil => by_cases here : key = k <;> simp [addUnder, sumUnder_cons, sumUnder_nil, here, eq_comm]
  | cons x rest ih =>
    obtain ⟨first, rest'⟩ := List.pairwise_cons.mp sorted
    by_cases same : key = x.1
    · subst same
      by_cases here : k = x.1 <;> simp [addUnder, sumUnder_cons, here, eq_comm]
    · by_cases before : below key x.1 = true
      · have absent : key ∉ (x :: rest).map Prod.fst := by
          rw [List.map_cons, List.mem_cons, not_or]
          refine ⟨same, fun later => ?_⟩
          obtain ⟨y, member, equal⟩ := List.mem_map.mp later
          have loop := trans _ _ _ before (first y member)
          rw [equal, irrefl] at loop
          cases loop
        simp only [addUnder, if_neg same, before, if_true]
        rw [sumUnder_cons]
        by_cases here : k = key
        · subst here
          simp [sumUnder_of_not_mem absent]
        · simp [here, Ne.symm here]
      · simp only [addUnder, if_neg same, before]
        by_cases here : k = x.1
        · simp [sumUnder_cons, here, same]
        · simp [sumUnder_cons, here, ih rest']

/-- The sums of the values of a list hold under each key the sum of its values. -/
theorem sumUnder_sums [Scalar α] [ExactScalar α] {ι : Type} (keyOf : ι → κ) (valueOf : ι → α)
    (items : List ι) (k : κ) :
    sumUnder k (items.foldl (fun sums i => addUnder below (keyOf i) (valueOf i) sums) []) =
      (items.map fun i => if keyOf i = k then valueOf i else 0).sum := by
  have onto : ∀ sums, Sorted below sums →
      sumUnder k (items.foldl (fun sums i => addUnder below (keyOf i) (valueOf i) sums) sums) =
        sumUnder k sums + (items.map fun i => if keyOf i = k then valueOf i else 0).sum := by
    induction items with
    | nil => simp
    | cons i rest ih =>
      intro sums sorted
      rw [List.foldl_cons, ih _ (sorted_addUnder trans total sorted),
        sumUnder_addUnder trans irrefl sorted, List.map_cons, List.sum_cons, add_assoc]
  rw [onto [] .nil, sumUnder_nil, zero_add]

end

/-! ## Amounts -/

/-- What is summed on the rows: the residual, or the entries of a column. -/
inductive Quantity where
  | residual
  | column (column : Nat)
  deriving Repr, DecidableEq

variable [Scalar α]

def amount (r : Records α) : Quantity → Nat → α
  | .residual, row => sumUnder row r.residualByRow
  | .column column, row => sumUnder (row, column) r.matrixByEntry

def listed (r : Records α) : Quantity → List (Nat × α)
  | .residual => r.residual.map fun m => (m.row, m.value)
  | .column column => (r.matrix.filter fun m => m.column = column).map fun m => (m.row, m.value)

def onRow (row : Nat) (items : List (Nat × α)) : α :=
  (items.map fun x => if x.1 = row then x.2 else 0).sum

variable {r s : Records α} {q : Quantity} {row : Nat}

theorem onRow_cons (x : Nat × α) (rest : List (Nat × α)) :
    onRow row (x :: rest) = (if x.1 = row then x.2 else 0) + onRow row rest := by simp [onRow]

variable [ExactScalar α]

theorem onRow_append (items rest : List (Nat × α)) :
    onRow row (items ++ rest) = onRow row items + onRow row rest := by simp [onRow]

/-- A value on rows that are listed once each. -/
theorem onRow_map_pair {rows : List Nat} (once : rows.Nodup) (v : α) :
    onRow row (rows.map (·, v)) = if row ∈ rows then v else 0 := by
  induction rows with
  | nil => rfl
  | cons p rest ih =>
    obtain ⟨absent, once⟩ := List.nodup_cons.mp once
    rw [List.map_cons, onRow_cons, ih once]
    by_cases here : p = row
    · subst here
      simp [absent]
    · simp [here, Ne.symm here]

theorem amount_eq (r : Records α) (q : Quantity) (row : Nat) : r.amount q row = onRow row (r.listed q) := by
  cases q with
  | residual =>
    rw [amount, residualByRow, sumUnder_sums (by simp; omega) (by simp) (by simp), onRow, listed,
      List.map_map]
    rfl
  | column column =>
    rw [amount, matrixByEntry, sumUnder_sums (by simp; omega) (by simp; omega) (by simp), listed]
    induction r.matrix with
    | nil => rfl
    | cons m rest ih =>
      rw [List.map_cons, List.sum_cons, ih]
      by_cases here : m.column = column <;> simp [onRow, here]

theorem amount_append : (r.append s).amount q row = r.amount q row + s.amount q row := by
  simp only [amount_eq]
  cases q <;> simp [onRow, listed, append]

omit [Scalar α] [ExactScalar α] in
theorem listed_permute (r : Records α) (moves : RowMap) (q : Quantity) : (r.permute moves).listed q =
    (r.listed q).flatMap fun x => (moves.destinations x.1).map (·, x.2) := by
  cases q with
  | residual => simp [listed, permute, List.flatMap_map, List.map_flatMap, Function.comp_def]
  | column column =>
    simp only [listed, permute]
    induction r.matrix with
    | nil => rfl
    | cons m rest ih =>
      by_cases here : m.column = column <;> simp [here, ih, List.filter_map, Function.comp_def]

end Records

/-! ## Sources of a row -/

namespace RowMap

variable {m : RowMap} {row p : Nat}

/-- The rows whose records land on a row. -/
def sources (m : RowMap) (row : Nat) : Finset Nat :=
  {p ∈ insert row (m.entries.map Prod.fst).toFinset | row ∈ m.destinations p}

theorem mem_sources : p ∈ m.sources row ↔ row ∈ m.destinations p := by
  simp only [sources, mem_filter, mem_insert, List.mem_toFinset, and_iff_right_iff_imp]
  intro lands
  cases found : m.get? p with
  | none =>
    rw [destinations, found] at lands
    exact .inl (List.mem_singleton.mp lands).symm
  | some move => exact .inr (List.mem_map_of_mem (f := Prod.fst) (mem_entries_of_get? found))

/-- Where targets are not claimed, a record lands on a row once. -/
theorem nodup_destinations (final : ∀ target keepCopy, m.get? p = some (.moved target keepCopy) →
    m.get? target = none) : (m.destinations p).Nodup := by
  unfold destinations
  cases found : m.get? p with
  | none => exact List.nodup_singleton _
  | some move =>
    cases move with
    | dropped => exact List.nodup_nil
    | moved target keepCopy =>
      have apart : target ≠ p := by
        rintro rfl
        cases found.symm.trans (final _ _ found)
      cases keepCopy <;> simp [RowMove.destinations, apart]

end RowMap

namespace Records

variable [Scalar α] [ExactScalar α]

/-- When records move, a row receives the amounts of its sources. -/
theorem amount_permute {moves : RowMap} (once : ∀ p, (moves.destinations p).Nodup) (r : Records α)
    (q : Quantity) (row : Nat) :
    (r.permute moves).amount q row = ∑ p ∈ moves.sources row, r.amount q p := by
  simp only [amount_eq, listed_permute]
  induction r.listed q with
  | nil => simp [onRow]
  | cons x rest ih =>
    have lands : onRow row ((moves.destinations x.1).map (·, x.2)) =
        ∑ p ∈ moves.sources row, if x.1 = p then x.2 else 0 := by
      rw [Finset.sum_ite_eq, onRow_map_pair (once x.1)]
      simp only [RowMap.mem_sources]
    rw [List.flatMap_cons, onRow_append, ih, lands, ← Finset.sum_add_distrib]
    exact Finset.sum_congr rfl fun p _ => (onRow_cons ..).symm

end Records

end FiniteVolume
