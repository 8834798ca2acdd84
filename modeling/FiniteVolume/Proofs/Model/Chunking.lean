import FiniteVolume.Proofs.Expression.Chunking
import FiniteVolume.Proofs.Model.Resting

/-!
How vectors are divided is no matter for a region.

A region under another division of vectors (`Region.rechunk`) reads and answers alike and is left under the
other division, as long as its calculators are neutral (`Region.respects_read`). Every call on the one is a
call on the other (`Region.Change.apply_rechunk`).
-/
namespace FiniteVolume

variable {β α : Type}

/-! ## Stores -/

namespace ModelStore

variable {s : ModelStore β α} {kind : Calculator β α → Prop} {d : Domain} {name : String} {m m' : Model β α}

theorem Uses.replace (uses : s.Uses kind) (found : s.get? d name = some m) (same : m'.source = m.source) :
    (s.replace d name m').Uses kind := by
  intro d' n m₀ calculator found₀ computed
  rw [get?_replace] at found₀
  split at found₀
  · obtain ⟨-, -, rfl⟩ := Option.map_eq_some_iff.mp found₀
    exact uses d name m calculator found (same ▸ computed)
  · exact uses d' n m₀ calculator found₀ computed

theorem Uses.conclude (uses : s.Uses kind) (target : Target) (result : Except ModelError (Field α)) :
    (s.conclude target result).2.Uses kind := by
  cases found : s.get? target.domain target.name with
  | none =>
    unfold ModelStore.conclude
    rwa [found]
  | some m =>
    rw [conclude_of_found found]
    exact uses.replace found Model.source_concluded

end ModelStore

/-! ## Reads -/

namespace Region

/-- The same region under another division of vectors. -/
def rechunk (c : Chunking) (r : Region β α) : Region β α := { r with chunking := c }

/-- Models are calculated alike however vectors are divided. -/
def Neutral (r : Region β α) : Prop := r.models.Uses Calculator.Neutral

variable [Scalar α] (c : Chunking) {limit : String → RegionRead β α (Option (Resolved α))}

theorem atCorner_rechunk (r : Region β α) : (r.rechunk c).atCorner = r.atCorner := by
  funext d corner nodes
  exact Field.gather_chunking ..

theorem resolve?_rechunk (r : Region β α) : (r.rechunk c).resolve? = r.resolve? := by
  funext name
  unfold resolve?
  simp only [atCorner_rechunk, Field.gather_chunking (r.rechunk c).chunking r.chunking]
  rfl

theorem respects_lookupWith {read : Domain → String → RegionRead β α (Field α)}
    (reads : ∀ d name, Respects (rechunk c) Neutral (read d name)) (name : String) :
    Respects (rechunk c) Neutral (lookupWith read name) := by
  intro r neutral
  have resolve := congrFun (r.resolve?_rechunk c) name
  cases resolved : r.resolve? name with
  | none =>
    rw [lookupWith_of_unresolved resolved, lookupWith_of_unresolved (resolve.trans resolved)]
    exact ⟨rfl, neutral⟩
  | some found =>
    obtain ⟨same, kept⟩ := reads found.source.1 found.source.2 r neutral
    rw [lookupWith_of_resolved resolved, lookupWith_of_resolved (resolve.trans resolved), same]
    exact ⟨rfl, kept⟩

/-- A stale model asks alike while it is marked, and its values are cached alike. -/
theorem respects_readWithin (ends : ∀ name, Respects (rechunk c) Neutral (limit name)) (k : Nat)
    (d : Domain) (name : String) : Respects (rechunk c) Neutral (readWithin limit k d name) := by
  induction k using Nat.strongRecOn generalizing d name with
  | _ k ih =>
    intro r neutral
    rcases r.models.begin_cases d name with ⟨m, calculator, found, stale, computed⟩ | ⟨result, began⟩
    · have answers : ∀ y, Respects (rechunk c) Neutral (lookupWithin limit k y) := by
        intro y
        cases k with
        | zero => exact ends y
        | succ k => exact respects_lookupWith c (ih k (by omega)) y
      let run := (calculator.calculate r.surroundings (r.targetOf d name m)).runState
        (lookupWithin limit k) parameter?
      have again : readWithin limit k d name (r.rechunk c) = endRead (r.targetOf d name m)
          (run ((r.marked d name m).rechunk c)).1 (run ((r.marked d name m).rechunk c)).2 := by
        rw [readWithin_of_stale (r := r.rechunk c) found stale computed]
        dsimp only [run]
        rw [← neutral d name m calculator found computed r.surroundings c]
        rfl
      have respects : Respects (rechunk c) Neutral run := Query.respects_runState answers fun _ => rfl
      obtain ⟨same, kept⟩ := respects (r.marked d name m) (ModelStore.Uses.replace neutral found rfl)
      rw [again, same, readWithin_of_stale found stale computed]
      exact ⟨rfl, ModelStore.Uses.conclude kept _ _⟩
    · rw [readWithin_of_begin (began _), readWithin_of_begin (r := r.rechunk c) (began _)]
      exact ⟨rfl, neutral⟩

omit [Scalar α] in
theorem respects_reportCycle (name : String) :
    Respects (rechunk c) (Neutral : Region β α → Prop) (reportCycle name) := fun _ neutral => ⟨rfl, neutral⟩

theorem respects_read (d : Domain) (name : String) :
    Respects (rechunk c) (Neutral : Region β α → Prop) (read d name) := fun r neutral =>
  respects_readWithin c (respects_reportCycle c) _ d name r neutral

theorem respects_find (name : String) :
    Respects (rechunk c) (Neutral : Region β α → Prop) (find name) := fun r neutral =>
  respects_lookupWith c (respects_readWithin c (respects_reportCycle c) _) name r neutral

end Region

/-! ## Calls -/

namespace Region

variable [BaseScalar β] [Scalar α] [Precision β α] {r : Region β α}

omit [BaseScalar β] [Scalar α] [Precision β α] in
theorem setData_rechunk (c : Chunking) (d : Domain) (name : String) (data : Field α) :
    (r.rechunk c).setData d name data = (r.setData d name data).map (rechunk c) := by
  unfold setData
  by_cases differs : data.size ≠ r.size d
  · rw [if_pos differs, if_pos (show data.size ≠ (r.rechunk c).size d from differs)]
    rfl
  · rw [if_neg differs, if_neg (show ¬data.size ≠ (r.rechunk c).size d from differs)]
    rfl

omit [BaseScalar β] in
theorem setCoordinate_rechunk (neutral : r.Neutral) (c : Chunking) (node : Nat) (axis : Axis) (value : β) :
    setCoordinate node axis value (r.rechunk c) =
      ((setCoordinate node axis value r).1, (setCoordinate node axis value r).2.rechunk c) := by
  have read := (respects_read c .node axis.text r neutral).1
  unfold setCoordinate
  rw [RegionRead.bind_get, RegionRead.bind_get]
  by_cases outside : r.nodeCount ≤ node
  · rw [if_pos outside, if_pos (show (r.rechunk c).nodeCount ≤ node from outside)]
    rfl
  rw [if_neg outside, if_neg (show ¬(r.rechunk c).nodeCount ≤ node from outside)]
  rcases ran : r.read .node axis.text with ⟨e | data, r'⟩
  · rw [ran] at read
    dsimp only
    rw [RegionRead.bind_of_error ran, RegionRead.bind_of_error read]
  · rw [ran] at read
    dsimp only
    rw [RegionRead.bind_of_ok ran, RegionRead.bind_of_ok read, RegionRead.bind_get, RegionRead.bind_get,
      setData_rechunk]
    cases r'.setData .node axis.text (data.set node (Precision.narrow value)) <;> rfl

omit [BaseScalar β] [Scalar α] [Precision β α] in
theorem declareOnContact_rechunk (c : Chunking) (contact name : String) (calculator : Calculator β α) :
    (r.rechunk c).declareOnContact contact name calculator =
      (r.declareOnContact contact name calculator).map (rechunk c) := by
  cases there : r.contacts.contains contact <;> simp [declareOnContact, rechunk, there, Except.map, touch]

omit [BaseScalar β] [Scalar α] [Precision β α] in
theorem orElse_rechunk (c : Chunking) (result : Except ModelError (Region β α)) :
    (r.rechunk c).orElse (result.map (rechunk c)) = (r.orElse result).rechunk c := by
  cases result <;> rfl

omit [BaseScalar β] [Precision β α] in
theorem addEquation_rechunk (c : Chunking) (equation variableName : String) :
    (r.rechunk c).addEquation equation variableName = (r.addEquation equation variableName).rechunk c := by
  cases there : r.models.contains .node variableName <;>
    simp [addEquation, rechunk, there, setUniform, touch, size]

/-- A call on a region is the same under another division of vectors. -/
theorem Change.apply_rechunk (neutral : r.Neutral) (c : Chunking) (change : Change β α) :
    change.apply (r.rechunk c) = (change.apply r).rechunk c := by
  cases change with
  | setData d name data => rw [apply, apply, setData_rechunk, orElse_rechunk]
  | setCoordinate node axis value =>
    exact congrArg Prod.snd (setCoordinate_rechunk neutral c node axis value)
  | declareOnContact contact name functions e => rw [apply, apply, declareOnContact_rechunk, orElse_rechunk]
  | removeModel d name =>
    cases there : r.models.contains d name <;> simp [apply, Region.removeModel, rechunk, there, touch]
  | addEquation equation variableName => exact addEquation_rechunk c equation variableName
  | removeEquation equation =>
    cases there : r.slots.contains equation <;> simp [apply, Region.removeEquation, rechunk, there]
  | read d name => exact congrArg Prod.snd (respects_read c d name r neutral).1
  | find name => exact congrArg Prod.snd (respects_find c name r neutral).1
  | setUniform | declare | setDisplay | markOld | setParameter | addContact | takeNotes => rfl

end Region

end FiniteVolume
