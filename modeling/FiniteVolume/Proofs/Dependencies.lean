import FiniteVolume.Dependencies

/-!
The two directions of the dependency relation, and what an invalidation wave reaches.

`Mirrored` ties the directions together; registering and unregistering keep it and change exactly
the pairs they name. A wave contains every direct dependent and is closed under dependence, so a
name outside the wave depends on nothing inside it.
-/
namespace FiniteVolume.Dependencies

variable {g : Dependencies} {m m' u x y name : String}

/-- Both directions hold the same pairs. -/
def Mirrored (g : Dependencies) : Prop := ∀ m u, m ∈ g.dependentsOf u ↔ u ∈ g.sourcesOf m

theorem mirrored_empty : Mirrored {} := fun _ _ => by
  constructor <;> intro member <;> exact absurd member List.not_mem_nil

/-! ## Registering -/

theorem setAt_insert (t : Table String (OrderedSet String)) (k k' : String) (s : OrderedSet String) :
    setAt (t.insert k s) k' = if k' = k then s else setAt t k' := by
  simp only [setAt, Table.get?_insert]
  split <;> rfl

theorem mem_setAt_insert_insert {t : Table String (OrderedSet String)} {k k' : String} :
    y ∈ (setAt (t.insert k ((setAt t k).insert x)) k').elems ↔
      (k' = k ∧ y = x) ∨ y ∈ (setAt t k').elems := by
  rw [setAt_insert]
  split
  next same => simp [OrderedSet.mem_elems_insert, same]
  next apart => simp [apart]

theorem mem_dependentsOf_register :
    m' ∈ (g.register m u).dependentsOf x ↔ (x = u ∧ m' = m) ∨ m' ∈ g.dependentsOf x :=
  mem_setAt_insert_insert

theorem mem_sourcesOf_register :
    x ∈ (g.register m u).sourcesOf m' ↔ (m' = m ∧ x = u) ∨ x ∈ g.sourcesOf m' :=
  mem_setAt_insert_insert

theorem Mirrored.register (mirrored : g.Mirrored) (m u : String) : (g.register m u).Mirrored := by
  intro m' x
  rw [mem_dependentsOf_register, mem_sourcesOf_register, mirrored m' x, and_comm]

theorem mem_dependentsOf_registerAll {names : List String} :
    m' ∈ (names.foldl (·.register m ·) g).dependentsOf x ↔
      (m' = m ∧ x ∈ names) ∨ m' ∈ g.dependentsOf x := by
  induction names generalizing g with
  | nil => simp
  | cons u rest ih =>
    rw [List.foldl_cons, ih, mem_dependentsOf_register, List.mem_cons]
    grind

theorem Mirrored.registerAll (mirrored : g.Mirrored) (m : String) (names : List String) :
    (names.foldl (·.register m ·) g).Mirrored := by
  induction names generalizing g with
  | nil => exact mirrored
  | cons u rest ih => exact ih (mirrored.register m u)

/-! ## Unregistering -/

/-- Of the set under the name, the model is left out; other sets stay. -/
theorem elems_setAt_removeDependent (t : Table String (OrderedSet String)) (name m x : String) :
    (setAt (removeDependent t name m) x).elems =
      if x = name then (setAt t x).elems.filter (· ≠ m) else (setAt t x).elems := by
  unfold removeDependent
  split
  next missing =>
    split
    next same => simp [setAt, same, missing]
    next apart => rfl
  next models found =>
    dsimp only
    split
    next gone =>
      have noneLeft : models.elems.filter (· ≠ m) = [] := List.isEmpty_iff.mp gone
      simp only [setAt, Table.get?_erase]
      split
      next same => rw [same, found, Option.getD_some, noneLeft, Option.getD_none,
        OrderedSet.elems_emptyCollection]
      next apart => rfl
    next =>
      rw [setAt_insert]
      split
      next same => rw [same, OrderedSet.elems_erase, setAt, found, Option.getD_some]
      next apart => rfl

theorem elems_setAt_removeDependents (names : List String) (t : Table String (OrderedSet String))
    (m x : String) : (setAt (names.foldl (removeDependent · · m) t) x).elems =
      if x ∈ names then (setAt t x).elems.filter (· ≠ m) else (setAt t x).elems := by
  induction names generalizing t with
  | nil => simp
  | cons name rest ih =>
    rw [List.foldl_cons, ih, elems_setAt_removeDependent]
    by_cases here : x = name
    · simp [here]
    · simp [here]

theorem sourcesOf_unregister (g : Dependencies) (m d : String) :
    (g.unregister m).sourcesOf d = if d = m then [] else g.sourcesOf d := by
  unfold unregister
  split
  next missing =>
    split
    next same => simp [sourcesOf, setAt, same, missing]
    next apart => rfl
  next names found =>
    simp only [sourcesOf, setAt, Table.get?_erase]
    split <;> rfl

/-- Every set loses the model; the rest keeps its order. -/
theorem dependentsOf_unregister (mirrored : g.Mirrored) (m x : String) :
    (g.unregister m).dependentsOf x = (g.dependentsOf x).filter (· ≠ m) := by
  have unlisted : x ∉ g.sourcesOf m → (g.dependentsOf x).filter (· ≠ m) = g.dependentsOf x := by
    intro absent
    refine List.filter_eq_self.mpr fun d member => ?_
    have other : d ≠ m := fun same => absent ((mirrored m x).mp (same ▸ member))
    simp [other]
  unfold unregister
  split
  next missing => exact (unlisted (by simp [sourcesOf, setAt, missing])).symm
  next names found =>
    have listed : g.sourcesOf m = names.elems := by rw [sourcesOf, setAt, found, Option.getD_some]
    rw [listed] at unlisted
    simp only [dependentsOf, elems_setAt_removeDependents] at unlisted ⊢
    split
    next => rfl
    next absent => exact (unlisted absent).symm

theorem mem_sourcesOf_unregister :
    u ∈ (g.unregister m).sourcesOf m' ↔ u ∈ g.sourcesOf m' ∧ m' ≠ m := by
  rw [sourcesOf_unregister]
  split
  next same => simp [same]
  next apart => simp [apart]

theorem mem_dependentsOf_unregister (mirrored : g.Mirrored) :
    m' ∈ (g.unregister m).dependentsOf x ↔ m' ∈ g.dependentsOf x ∧ m' ≠ m := by
  rw [dependentsOf_unregister mirrored, List.mem_filter, decide_eq_true_iff]

theorem Mirrored.unregister (mirrored : g.Mirrored) (m : String) : (g.unregister m).Mirrored := by
  intro m' x
  rw [mem_dependentsOf_unregister mirrored, mem_sourcesOf_unregister, mirrored m' x]

/-! ## Waves -/

/-- Dependents of the names at the first `position` places are in the set. -/
def Processed (g : Dependencies) (position : Nat) (found : OrderedSet String) : Prop :=
  ∀ i < position, ∀ x, found.elems[i]? = some x → ∀ y ∈ g.dependentsOf x, y ∈ found.elems

theorem Processed.closed {position : Nat} {found : OrderedSet String}
    (processed : g.Processed position found) (atEnd : found.elems.length ≤ position) :
    ∀ x ∈ found.elems, ∀ y ∈ g.dependentsOf x, y ∈ found.elems := by
  intro x member
  obtain ⟨i, bound, rfl⟩ := List.mem_iff_getElem.mp member
  exact processed i (by omega) _ (List.getElem?_eq_getElem bound)

/-- The next name is processed by adding its dependents, which keeps every position. -/
theorem Processed.next {position : Nat} {found : OrderedSet String}
    (processed : g.Processed position found) (here : found.elems[position]? = some name) :
    g.Processed (position + 1) (found.insertAll (g.dependentsOf name)) := by
  intro i below x atIndex y direct
  have grown := OrderedSet.elems_prefix_insertAll found (g.dependentsOf name)
  have inside : i < found.elems.length := by
    have := (List.getElem?_eq_some_iff.mp here).1
    omega
  rw [List.prefix_iff_getElem?.mp grown i inside] at atIndex
  by_cases earlier : i < position
  · exact grown.subset (processed i earlier x (by rwa [List.getElem?_eq_getElem inside]) y direct)
  · obtain rfl : i = position := by omega
    rw [List.getElem?_eq_getElem inside, atIndex] at here
    cases here
    exact OrderedSet.mem_elems_insertAll.mpr (.inr direct)

theorem mem_dependentsOf_values (member : m ∈ g.dependentsOf u) :
    m ∈ g.dependents.values.flatMap (·.elems) := by
  unfold dependentsOf setAt at member
  cases found : g.dependents.get? u with
  | none => simp [found] at member
  | some models =>
    rw [found, Option.getD_some] at member
    have entry := Table.get?_eq_some_iff.mp found
    exact List.mem_flatMap.mpr ⟨models, List.mem_map.mpr ⟨_, entry, rfl⟩, member⟩

/-- Names that all depend on something are no more than the registered pairs. -/
theorem size_le_pairCount {found : OrderedSet String}
    (dependent : ∀ y ∈ found.elems, ∃ x, y ∈ g.dependentsOf x) : found.elems.length ≤ g.pairCount :=
  found.nodup.length_le_of_subset fun _ member =>
    let ⟨_, direct⟩ := dependent _ member
    mem_dependentsOf_values direct

theorem subset_extendWave (steps position : Nat) (found : OrderedSet String) :
    found.elems ⊆ (g.extendWave steps position found).elems := by
  induction steps generalizing position found with
  | zero => exact List.Subset.refl _
  | succ steps ih =>
    unfold extendWave
    split
    · exact List.Subset.refl _
    next name _ =>
      exact List.Subset.trans (OrderedSet.elems_prefix_insertAll found _).subset (ih _ _)

theorem dependent_insertAll {found : OrderedSet String}
    (dependent : ∀ y ∈ found.elems, ∃ x, y ∈ g.dependentsOf x) (name : String) :
    ∀ y ∈ (found.insertAll (g.dependentsOf name)).elems, ∃ x, y ∈ g.dependentsOf x := by
  intro y member
  rcases OrderedSet.mem_elems_insertAll.mp member with old | new
  · exact dependent y old
  · exact ⟨name, new⟩

/-- When the steps suffice for all pairs, nothing that depends on a found name is left out. -/
theorem closed_extendWave (steps position : Nat) (found : OrderedSet String)
    (enough : g.pairCount ≤ position + steps)
    (dependent : ∀ y ∈ found.elems, ∃ x, y ∈ g.dependentsOf x)
    (processed : g.Processed position found) :
    ∀ x ∈ (g.extendWave steps position found).elems, ∀ y ∈ g.dependentsOf x,
      y ∈ (g.extendWave steps position found).elems := by
  induction steps generalizing position found with
  | zero =>
    -- The names found are no more than the pairs, so the position is past the last of them.
    have few := size_le_pairCount dependent
    exact processed.closed (by omega)
  | succ steps ih =>
    unfold extendWave
    split
    next past => exact processed.closed (List.getElem?_eq_none_iff.mp past)
    next name here =>
      exact ih (position + 1) _ (by omega) (dependent_insertAll dependent name) (processed.next here)

theorem dependent_of_mem_extendWave (steps position : Nat) (found : OrderedSet String)
    (dependent : ∀ y ∈ found.elems, ∃ x, y ∈ g.dependentsOf x) :
    ∀ y ∈ (g.extendWave steps position found).elems, ∃ x, y ∈ g.dependentsOf x := by
  induction steps generalizing position found with
  | zero => exact dependent
  | succ steps ih =>
    unfold extendWave
    split
    · exact dependent
    next name _ => exact ih _ _ (dependent_insertAll dependent name)

theorem dependent_of_mem_wave (member : y ∈ g.wave name) : ∃ x, y ∈ g.dependentsOf x :=
  dependent_of_mem_extendWave _ _ _
    (fun _ member => ⟨name, OrderedSet.mem_elems_ofList.mp member⟩) y member

theorem mem_wave_of_dependent (direct : y ∈ g.dependentsOf x) : y ∈ g.wave x :=
  subset_extendWave _ _ _ (OrderedSet.mem_elems_ofList.mpr direct)

theorem mem_wave_of_mem_wave (member : x ∈ g.wave name) (direct : y ∈ g.dependentsOf x) :
    y ∈ g.wave name :=
  closed_extendWave g.pairCount 0 _ (by omega)
    (fun _ member => ⟨name, OrderedSet.mem_elems_ofList.mp member⟩)
    (fun i below => absurd below (Nat.not_lt_zero i)) x member y direct

end FiniteVolume.Dependencies
