import FiniteVolume.Proofs.Model.Layout
import FiniteVolume.Proofs.Model.Values

/-!
What writes to some models leave of a region.

Whatever is read, and whatever is written to the models of some names, the declarations of the others
stay (`Region.WritesOnly`). Data that is stored in one of those is therefore still stored afterwards
(`Region.WritesOnly.stored`).
-/
namespace FiniteVolume.Region

variable {β α : Type} {r r' r'' : Region β α} {d : Domain} {name : String} {data : Field α}
  {written written' : Domain → String → Prop}

/-- The second region is the first after writes to models of the given names, and reads. -/
structure WritesOnly (written : Domain → String → Prop) (r r' : Region β α) : Prop where
  bare : r'.bare = r.bare
  models : ∀ d name, ¬written d name →
    (r'.models.get? d name).map Model.uncached = (r.models.get? d name).map Model.uncached

/-- The model holds data that was written to it. -/
def Stored (r : Region β α) (d : Domain) (name : String) (data : Field α) : Prop :=
  ∃ m, r.models.get? d name = some m ∧ m.source = .written ∧ m.state = .fresh ∧ m.value = some data

theorem Stored.atHand (stored : r.Stored d name data) : r.AtHand d name data := by
  obtain ⟨m, found, -, fresh, value⟩ := stored
  exact ⟨m, found, value, .inl fresh⟩

namespace WritesOnly

theorem refl (r : Region β α) : WritesOnly written r r := ⟨rfl, fun _ _ _ => rfl⟩

theorem trans (first : WritesOnly written r r') (second : WritesOnly written r' r'') :
    WritesOnly written r r'' where
  bare := second.bare.trans first.bare
  models d name not := (second.models d name not).trans (first.models d name not)

theorem mono (writes : WritesOnly written r r') (more : ∀ d name, written d name → written' d name) :
    WritesOnly written' r r' where
  bare := writes.bare
  models d name not := writes.models d name fun here => not (more d name here)

theorem of_uncached_eq (same : r'.uncached = r.uncached) : WritesOnly written r r' where
  bare := bare_of_uncached_eq same
  models d name _ := by
    rw [← ModelStore.get?_uncached, ← ModelStore.get?_uncached]
    exact congrArg (fun r => r.models.get? d name) same

theorem of_setData (wrote : r.setData d name data = .ok r') :
    WritesOnly (fun d' name' => (d', name') = (d, name)) r r' where
  bare := bare_of_setData wrote
  models d' name' not := by
    unfold setData at wrote
    split at wrote
    · cases wrote
    · cases wrote
      change ((r.models.write d name data).get? d' name').map _ = _
      rw [ModelStore.get?_write, if_neg not, Option.map_map]
      simp only [Function.comp_def, Model.uncached_outdateIf]

theorem setParameter (r : Region β α) (name : String) (value : β) :
    WritesOnly written r (r.setParameter name value) where
  bare := rfl
  models d' name' _ := by
    change ((r.models.markOld name).get? d' name').map _ = _
    rw [ModelStore.get?_markOld, Option.map_map]
    simp only [Function.comp_def, Model.uncached_outdateIf]

theorem stored (writes : WritesOnly written r r') (stored : r.Stored d name data)
    (not : ¬written d name) : r'.Stored d name data := by
  obtain ⟨m, found, source, state, value⟩ := stored
  have same := writes.models d name not
  rw [found] at same
  obtain ⟨m', found', same⟩ := Option.map_eq_some_iff.mp same
  have source' := (Model.source_of_uncached same).trans source
  rw [Model.uncached_of_written source, Model.uncached_of_written source'] at same
  exact ⟨m', found', source', same ▸ state, same ▸ value⟩

end WritesOnly

theorem stored_of_setData (wrote : r.setData d name data = .ok r') : r'.Stored d name data := by
  unfold setData at wrote
  split at wrote
  · cases wrote
  · cases wrote
    exact ⟨_, (ModelStore.get?_write data).trans (if_pos rfl), rfl, rfl, rfl⟩

end FiniteVolume.Region
