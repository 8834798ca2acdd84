import FiniteVolume.Proofs.Numeric.Vanishing
import FiniteVolume.Proofs.Update.Nodes

/-!
Largest steps.

Statistics are merged size by size, and of equal sizes the earlier one stays. A sequence of merges from
zero therefore ends with the first of the largest sizes and what it was marked by, or with zero if no size
is above it (`LargestOf.foldl_max`). The statistics of an update are such a sequence over its nodes.
-/
namespace FiniteVolume

/-! ## The first of the largest -/

section

variable {β : Type} [Scalar β]

/-- The first of the largest among marked sizes, or zero if none is above it. Sizes that are no numbers do
not count. -/
structure FirstLargest (items : List (β × Nat)) (best : β × Nat) : Prop where
  bound : ∀ x ∈ items, IsNumber x.1 → Scalar.le x.1 best.1
  found : (best = (0, 0) ∧ ∀ x ∈ items, Scalar.lt 0 x.1 = false) ∨
    Scalar.lt 0 best.1 ∧ ∃ before after, items = before ++ best :: after ∧
      ∀ x ∈ before, Scalar.le best.1 x.1 = false

namespace FirstLargest

variable [OrderedScalar β] {items : List (β × Nat)} {best x : β × Nat}

omit [OrderedScalar β] in
theorem nil : FirstLargest ([] : List (β × Nat)) (0, 0) := ⟨by simp, .inl (by simp)⟩

omit [OrderedScalar β] in
theorem eq_zero (largest : FirstLargest items best) (none : ∀ x ∈ items, Scalar.lt 0 x.1 = false) :
    best = (0, 0) := by
  obtain ⟨zero, -⟩ | ⟨above, before, after, rfl, -⟩ := largest.found
  · exact zero
  · rw [none best (by simp)] at above
    cases above

theorem isNumber (largest : FirstLargest items best) : IsNumber best.1 := by
  obtain ⟨rfl, -⟩ | ⟨above, -⟩ := largest.found
  · exact OrderedScalar.isNumber_zero
  · exact (OrderedScalar.isNumber_of_lt above).2

theorem concat_of_lt (largest : FirstLargest items best) (larger : Scalar.lt best.1 x.1) :
    FirstLargest (items ++ [x]) x where
  bound y member number := by
    rcases List.mem_append.mp member with member | member
    · exact OrderedScalar.le_trans (largest.bound y member number) (OrderedScalar.le_of_lt larger)
    · rwa [List.mem_singleton.mp member] at number ⊢
  found := by
    refine .inr ⟨?_, items, [], rfl, fun y member => Bool.eq_false_iff.mpr fun reaches => ?_⟩
    · obtain ⟨rfl, -⟩ | ⟨above, -⟩ := largest.found
      · exact larger
      · exact OrderedScalar.lt_trans above larger
    · have below := largest.bound y member (OrderedScalar.isNumber_of_le reaches).2
      have apart := OrderedScalar.not_le_of_lt larger
      rw [OrderedScalar.le_trans reaches below] at apart
      cases apart

theorem concat_of_not_lt (largest : FirstLargest items best) (not : Scalar.lt best.1 x.1 = false) :
    FirstLargest (items ++ [x]) best where
  bound y member number := by
    rcases List.mem_append.mp member with member | member
    · exact largest.bound y member number
    · rw [List.mem_singleton.mp member] at number ⊢
      exact OrderedScalar.le_of_not_lt number largest.isNumber not
  found := by
    obtain ⟨rfl, none⟩ | ⟨above, before, after, rfl, first⟩ := largest.found
    · refine .inl ⟨rfl, fun y member => ?_⟩
      rcases List.mem_append.mp member with member | member
      · exact none y member
      · rwa [List.mem_singleton.mp member]
    · exact .inr ⟨above, before, after ++ [x], by simp, first⟩

theorem concat (largest : FirstLargest items best) (x : β × Nat) :
    FirstLargest (items ++ [x]) (if Scalar.lt best.1 x.1 then x else best) := by
  split
  next larger => exact largest.concat_of_lt larger
  next not => exact largest.concat_of_not_lt (Bool.eq_false_iff.mpr not)

end FirstLargest

namespace UpdateStats

def abs (s : UpdateStats β) : β × Nat := (s.absError, s.absNode)

/-- The largest step in units of the new value, and where it occurs. -/
def rel (s : UpdateStats β) : β × Nat := (s.relError, s.relNode)

theorem abs_max (s t : UpdateStats β) :
    (s.max t).abs = if Scalar.lt s.abs.1 t.abs.1 then t.abs else s.abs := by
  cases larger : Scalar.lt s.absError t.absError <;> simp [max, abs, larger]

theorem rel_max (s t : UpdateStats β) :
    (s.max t).rel = if Scalar.lt s.rel.1 t.rel.1 then t.rel else s.rel := by
  cases larger : Scalar.lt s.relError t.relError <;> simp [max, rel, larger]

end UpdateStats

structure LargestOf (items : List (UpdateStats β)) (s : UpdateStats β) : Prop where
  abs : FirstLargest (items.map (·.abs)) s.abs
  rel : FirstLargest (items.map (·.rel)) s.rel

namespace LargestOf

variable [OrderedScalar β] {items : List (UpdateStats β)} {s : UpdateStats β}

omit [OrderedScalar β] in
theorem nil : LargestOf ([] : List (UpdateStats β)) {} := ⟨.nil, .nil⟩

theorem concat (largest : LargestOf items s) (t : UpdateStats β) : LargestOf (items ++ [t]) (s.max t) where
  abs := by
    rw [List.map_append, UpdateStats.abs_max]
    exact largest.abs.concat t.abs
  rel := by
    rw [List.map_append, UpdateStats.rel_max]
    exact largest.rel.concat t.rel

theorem append (largest : LargestOf items s) (more : List (UpdateStats β)) :
    LargestOf (items ++ more) (more.foldl .max s) := by
  induction more generalizing items s with
  | nil => rwa [List.append_nil]
  | cons t more ih => simpa using ih (largest.concat t)

theorem foldl_max (items : List (UpdateStats β)) : LargestOf items (items.foldl .max {}) := nil.append items

omit [OrderedScalar β] in
theorem eq_empty (largest : LargestOf items s)
    (none : ∀ t ∈ items, Scalar.lt 0 t.absError = false ∧ Scalar.lt 0 t.relError = false) : s = {} := by
  have abs : s.abs = (0, 0) := largest.abs.eq_zero
    (List.forall_mem_map.mpr fun t member => (none t member).1)
  have rel : s.rel = (0, 0) := largest.rel.eq_zero
    (List.forall_mem_map.mpr fun t member => (none t member).2)
  cases s
  cases abs
  cases rel
  rfl

end LargestOf

end

/-! ## Statistics of an update -/

variable {β α : Type} [BaseScalar β] [Scalar α] [Precision β α]

/-- The statistics of one node: the size of the step that it takes, alone and in units of its new value. -/
def NodeUpdate.sizes (n : NodeUpdate α) (u : UpdateSettings β) (node : Nat) : UpdateStats β where
  absError := Precision.widen (Scalar.abs n.step)
  absNode := node
  relError := Precision.widen (Scalar.abs n.step / (Scalar.abs n.value + Precision.narrow u.minError))
  relNode := node

def NodeUpdate.allSizes (u : UpdateSettings β) (updates : List (NodeUpdate α)) : List (UpdateStats β) :=
  updates.zipIdx.map fun n => n.1.sizes u n.2

theorem UpdateStats.tally_eq (u : UpdateSettings β) (updates : List (NodeUpdate α)) :
    tally {} u 0 updates = (NodeUpdate.allSizes u updates).foldl .max {} := by
  rw [tally, NodeUpdate.allSizes, List.foldl_map]
  rfl

/-- A step is the change of the value: it is added to the old value, or taken from a value that was
clamped. -/
theorem UpdatePolicy.change_of_step? {p : UpdatePolicy} {u : UpdateSettings β} {old raw : α}
    {n : NodeUpdate α} (step : p.step? u old raw = some n) :
    if n.clamped then n.step = n.value - old else n.value = old + n.step := by
  cases p with
  | plain =>
    cases step
    rfl
  | logDamp =>
    cases step
    rfl
  | positive =>
    simp only [step?] at step
    split at step
    · cases step
    · split at step <;> cases step <;> rfl

theorem LargestOf.eq_empty_of_still [ZeroSized β α] {u : UpdateSettings β}
    {updates : List (NodeUpdate α)} {stats : UpdateStats β}
    (largest : LargestOf (NodeUpdate.allSizes u updates) stats)
    (still : ∀ n ∈ updates, Scalar.eq n.step 0) : stats = {} := by
  refine largest.eq_empty (List.forall_mem_map.mpr fun n member => ?_)
  have zero := still n.1 (List.fst_mem_of_mem_zipIdx member)
  exact ⟨ZeroSized.abs zero, ZeroSized.quotient zero⟩

end FiniteVolume
