import FiniteVolume.Proofs.Model.Store
import FiniteVolume.Model.Reading

/-!
Which model answers a name.

A resolved name is read from the model of that name, from the node model of its base, or, for a
corner of an element edge, from the edge model of the same end. The first two are names that an
expression with the name depends on; the third is not.
-/
namespace FiniteVolume.Region

variable {β α : Type} [Scalar α] {r r' : Region β α} {name : String} {found : Resolution α}

omit [Scalar α] in
theorem contains_of_domainOf? {d : Domain} (found : r.models.domainOf? name = some d) :
    r.models.contains d name = true := by
  rw [ModelStore.domainOf?] at found
  simpa using List.find?_some found

/-- The name of a corner of element edges, read from the edge model of the same end. -/
def ReadsEdgeEnd (name : String) (source : Domain × String) : Prop :=
  ∃ base corner side, Suffix.split? name = some (base, .elementCorner corner) ∧
    side.index = corner.val ∧ source = (.edge, (Suffix.edgeEnd side).apply base)

/-- The model that answers a name is the one of that name, the node model of its base, or the edge
model of the same end. -/
theorem source_of_resolve? (resolved : r.resolve? name = some found) :
    r.models.contains found.source.1 found.source.2 = true ∧
      (found.source.2 = name ∨
        (∃ s, Suffix.split? name = some (found.source.2, s) ∧ found.source.1 = .node) ∨
        ReadsEdgeEnd name found.source) := by
  -- A name is that of a model, or splits into an end of an edge or a corner of an element.
  unfold resolve? at resolved
  split at resolved
  next d own =>
    cases resolved
    exact ⟨contains_of_domainOf? own, .inl rfl⟩
  next =>
    split at resolved
    next base side split =>
      split at resolved
      next node =>
        cases resolved
        exact ⟨node, .inr (.inl ⟨_, split, rfl⟩)⟩
      · cases resolved
    next base corner split =>
      split at resolved
      · cases resolved
      next d element =>
        split at resolved
        · cases resolved
        · dsimp only at resolved
          split at resolved
          next atEnd chosen =>
            cases resolved
            obtain ⟨ofSide, present⟩ := Option.filter_eq_some_iff.mp chosen
            obtain ⟨side, index, rfl⟩ := Option.map_eq_some_iff.mp ofSide
            exact ⟨present, .inr (.inr ⟨base, corner, side, split,
              Side.ofIndex?_eq_some_iff.mp index, rfl⟩)⟩
          next =>
            split at resolved
            next node =>
              cases resolved
              exact ⟨node, .inr (.inl ⟨_, split, rfl⟩)⟩
            · cases resolved
    · cases resolved
    · cases resolved

theorem resolve?_congr (mesh : r'.mesh = r.mesh) (chunking : r'.chunking = r.chunking)
    (own : ∀ d, r'.models.contains d name = r.models.contains d name)
    (ofBase : ∀ base s, Suffix.split? name = some (base, s) →
      r'.models.contains .node base = r.models.contains .node base)
    (ofEnd : ∀ source, ReadsEdgeEnd name source →
      r'.models.contains source.1 source.2 = r.models.contains source.1 source.2) :
    r'.resolve? name = r.resolve? name := by
  have first : r'.models.domainOf? name = r.models.domainOf? name := by
    simp only [ModelStore.domainOf?, own]
  have corners : r'.atCorner = r.atCorner := by
    funext d corner nodes
    simp only [atCorner, mesh, chunking]
  unfold resolve?
  rw [first]
  split
  · rfl
  · cases split : Suffix.split? name with
    | none => rfl
    | some parts =>
      obtain ⟨base, s⟩ := parts
      have node := ofBase base s split
      cases s with
      | edgeEnd side => simp only [node, corners]
      | interfaceSide side => rfl
      | elementCorner corner =>
        have ends : ((Side.ofIndex? corner).map fun side => (Suffix.edgeEnd side).apply base).filter
              (r'.models.contains .edge) =
            ((Side.ofIndex? corner).map fun side => (Suffix.edgeEnd side).apply base).filter
              (r.models.contains .edge) := by
          cases index : Side.ofIndex? corner with
          | none => rfl
          | some side =>
            have same := ofEnd _ ⟨base, corner, side, split, Side.ofIndex?_eq_some_iff.mp index, rfl⟩
            simp only [Option.map_some, Option.filter, same]
        simp only [mesh, chunking, node, corners, ends]

end FiniteVolume.Region
