import FiniteVolume.Expression.Calculator
import FiniteVolume.Proofs.Model.Reading

/-!
Calls on a region and histories of calls.

Whatever is called, a region is read at most once, has one effect on its models, parameters or
contacts at most, and changes its revisions, equation slots and remarks besides
(`Change.apply_cases`). What holds of every such step holds of every history.
-/
namespace FiniteVolume.Region

variable {β α : Type}

/-- A call on a region. `setValues` is `setData` with a vector. -/
inductive Change (β α : Type) where
  | setUniform (d : Domain) (name : String) (value : α)
  | setData (d : Domain) (name : String) (data : Field α)
  | setCoordinate (node : Nat) (axis : Axis) (value : β)
  | declare (d : Domain) (name : String) (functions : Registry α) (e : Expr β)
  | declareOnContact (contact name : String) (functions : Registry α) (e : Expr β)
  | removeModel (d : Domain) (name : String)
  | setDisplay (d : Domain) (name : String) (display : DisplayType)
  | markOld (name : String)
  | setParameter (name : String) (value : β)
  | addContact (contact : Contact)
  | addEquation (equation variableName : String)
  | removeEquation (equation : String)
  | takeNotes
  | read (d : Domain) (name : String)
  | find (name : String)

namespace Change

/-- The models that a call may write or declare. -/
def introduces : Change β α → List (Domain × String)
  | setUniform d name _ | setData d name _ | declare d name _ _ => [(d, name)]
  | setCoordinate _ axis _ => [(.node, axis.text)]
  | declareOnContact _ name _ _ | addEquation _ name => [(.node, name)]
  | _ => []

def expression? : Change β α → Option (Expr β)
  | declare _ _ _ e | declareOnContact _ _ _ e => some e
  | _ => none

def contact? : Change β α → Option String
  | addContact contact => some contact.name
  | _ => none

def parameter? : Change β α → Option (String × β)
  | setParameter name value => some (name, value)
  | _ => none

end Change

/-- The same models, parameters and contacts on the same mesh. -/
structure Alike (r r' : Region β α) : Prop where
  models : r'.models = r.models
  mesh : r'.mesh = r.mesh
  chunking : r'.chunking = r.chunking
  parameters : r'.parameters = r.parameters
  contacts : r'.contacts = r.contacts

variable {r r' : Region β α} {d : Domain} {name : String}

theorem Alike.refl (r : Region β α) : Alike r r := ⟨rfl, rfl, rfl, rfl, rfl⟩

theorem alike_of_setData {data : Field α} (wrote : r.setData d name data = .ok r') :
    data.size = r.size d ∧ Alike { r with models := r.models.write d name data } r' := by
  unfold setData at wrote
  split at wrote
  · cases wrote
  next fits =>
    cases wrote
    exact ⟨Decidable.not_not.mp fits, rfl, rfl, rfl, rfl, rfl⟩

/-! ## New regions -/

section

variable [Precision β α]

/-- What holds of a region without models and is kept by writes of coordinates holds of a new
region. -/
theorem create_induction {P : Region β α → Prop} {instanceId : Nat} {device name : String}
    {mesh : Mesh β} {chunking : Chunking} (start : P { instanceId, device, name, mesh, chunking })
    (write : ∀ r a data, P r → a ∈ Axis.all → data.size = r.size .node →
      P { r with models := r.models.write .node a.text data }) :
    P (create instanceId device name mesh chunking) := by
  have all : ∀ axes ⊆ Axis.all, ∀ models, P { instanceId, device, name, mesh, chunking, models } →
      P { instanceId, device, name, mesh, chunking,
          models := axes.foldl (fun models a => models.write .node a.text
            (.vector (mesh.points.map fun p => Precision.narrow (a.coordinate p)))) models } := by
    intro axes within
    induction axes with
    | nil => exact fun _ holds => holds
    | cons a rest ih =>
      obtain ⟨here, later⟩ := List.cons_subset.mp within
      refine fun models holds => ih later _ (write _ a _ holds here ?_)
      simp [Field.size, Region.size, Mesh.size, Mesh.nodeCount]
  exact all Axis.all (List.Subset.refl _) {} start

/-- The models of a new region are its coordinates. -/
theorem contains_create {instanceId : Nat} {device region : String} {mesh : Mesh β}
    {chunking : Chunking} {d : Domain} {name : String} :
    (create instanceId device region mesh chunking : Region β α).models.contains d name = true ↔
      ∃ a ∈ Axis.all, (d, name) = (.node, a.text) := by
  have empty : ({} : ModelStore β α).contains d name = false := rfl
  simp only [create, Axis.all, List.foldl_cons, List.foldl_nil, ModelStore.contains_write, empty,
    List.mem_cons, List.not_mem_nil, or_false, exists_eq_or_imp, exists_eq_left,
    Bool.false_eq_true]
  grind

end

/-! ## Reads -/

section

variable [Scalar α]

/-- The second region results from the first by one read at most. -/
def Consulted (r r' : Region β α) : Prop := r' = r ∨ ∃ d name, r' = (r.read d name).2

theorem Consulted.declared (consulted : Consulted r r') : r'.uncached = r.uncached := by
  rcases consulted with rfl | ⟨d, name, rfl⟩
  · rfl
  · exact (readWithin_balanced r.waiting_le_size).declared

theorem find_of_resolved {found : Resolution α} (resolved : r.resolve? name = some found) :
    r.find name = ((r.read found.source.1 found.source.2).1.map fun data => some (found.answer data),
      (r.read found.source.1 found.source.2).2) :=
  lookupWith_of_resolved resolved

theorem find_of_unresolved (unresolved : r.resolve? name = none) : r.find name = (.ok none, r) :=
  lookupWith_of_unresolved unresolved

theorem consulted_find (r : Region β α) (name : String) : Consulted r (r.find name).2 := by
  cases resolved : r.resolve? name with
  | none => exact .inl (by rw [find_of_unresolved resolved])
  | some found => exact .inr ⟨_, _, by rw [find_of_resolved resolved]⟩

/-- Moving a node fails at once, reads the coordinates only, or writes them too. -/
theorem setCoordinate_cases [Precision β α] (r : Region β α) (node : Nat) (axis : Axis) (value : β) :
    (r.setCoordinate node axis value).2 = r ∨
    (r.setCoordinate node axis value).2 = (r.read .node axis.text).2 ∨
    ∃ data, (r.read .node axis.text).2.setData .node axis.text data =
      .ok (r.setCoordinate node axis value).2 := by
  unfold setCoordinate
  rw [RegionRead.bind_get]
  split
  · exact .inl rfl
  · refine .inr ?_
    dsimp only
    rcases ran : r.read .node axis.text with ⟨e | data, r'⟩
    · rw [RegionRead.bind_of_error ran]
      exact .inl rfl
    · rw [RegionRead.bind_of_ok ran, RegionRead.bind_get]
      cases wrote : r'.setData .node axis.text (data.set node (Precision.narrow value)) with
      | error e => exact .inl rfl
      | ok r'' => exact .inr ⟨_, wrote⟩

end

/-! ## What a call does -/

variable [BaseScalar β] [Scalar α] [Precision β α]

/-- The region that a call leaves when it may refuse. -/
def orElse (r : Region β α) : Except ModelError (Region β α) → Region β α
  | .ok r' => r'
  | .error _ => r

def Change.apply (r : Region β α) : Change β α → Region β α
  | setUniform d name value => r.setUniform d name value
  | setData d name data => r.orElse (r.setData d name data)
  | setCoordinate node axis value => (r.setCoordinate node axis value).2
  | declare d name functions e => r.declare d name (.ofExpr functions e)
  | declareOnContact contact name functions e =>
    r.orElse (r.declareOnContact contact name (.ofExpr functions e))
  | removeModel d name => r.removeModel d name
  | setDisplay d name display => r.setDisplay d name display
  | markOld name => r.markOld name
  | setParameter name value => r.setParameter name value
  | addContact contact => r.addContact contact
  | addEquation equation variableName => r.addEquation equation variableName
  | removeEquation equation => r.removeEquation equation
  | takeNotes => r.takeNotes.2
  | read d name => (r.read d name).2
  | find name => (r.find name).2

def run (r : Region β α) (changes : List (Change β α)) : Region β α :=
  changes.foldl Change.apply r

inductive Change.Effect (change : Change β α) (r : Region β α) : Region β α → Prop
  | none : Effect change r r
  | write (d : Domain) (name : String) (data : Field α)
    (introduced : change.introduces = [(d, name)]) (fits : data.size = r.size d) :
    Effect change r { r with models := r.models.write d name data }
  | declare (d : Domain) (name : String) (functions : Registry α) (e : Expr β)
    (contact : Option String) (introduced : change.introduces = [(d, name)])
    (expressed : change.expression? = some e)
    (attached : ∀ name, contact = some name → r.contacts.contains name = true) :
    Effect change r { r with models := r.models.declare d name (.ofExpr functions e) contact }
  | remove (d : Domain) (name : String) (present : r.models.contains d name = true) :
    Effect change r { r with models := r.models.remove d name }
  | display (d : Domain) (name : String) (display : DisplayType) :
    Effect change r (r.setDisplay d name display)
  | markOld (name : String) : Effect change r { r with models := r.models.markOld name }
  | parameter (name : String) (value : β) (set : change.parameter? = some (name, value)) :
    Effect change r (r.setParameter name value)
  | contact (contact : Contact) (attached : change.contact? = some contact.name) :
    Effect change r (r.addContact contact)

/-- A call is a read or none, one effect or none, and a change of what models do not depend on. -/
theorem Change.apply_cases (change : Change β α) (r : Region β α) :
    ∃ r₀ r₁, Consulted r r₀ ∧ change.Effect r₀ r₁ ∧ Alike r₁ (change.apply r) := by
  have refused : ∃ r₀ r₁, Consulted r r₀ ∧ change.Effect r₀ r₁ ∧ Alike r₁ r :=
    ⟨r, r, .inl rfl, .none, .refl r⟩
  have only : ∀ {r₁ r' : Region β α}, change.Effect r r₁ → Alike r₁ r' →
      ∃ r₀ r₁, Consulted r r₀ ∧ change.Effect r₀ r₁ ∧ Alike r₁ r' :=
    fun effect alike => ⟨r, _, .inl rfl, effect, alike⟩
  -- Only moving a node and finding a name read first; a call that is refused has no effect.
  cases change with
  | setUniform d name value => exact only (.write d name _ rfl rfl) ⟨rfl, rfl, rfl, rfl, rfl⟩
  | setData d name data =>
    rw [apply]
    cases wrote : r.setData d name data with
    | error e => exact refused
    | ok r' =>
      obtain ⟨fits, alike⟩ := alike_of_setData wrote
      exact only (.write d name data rfl fits) alike
  | setCoordinate node axis value =>
    rw [apply]
    rcases r.setCoordinate_cases node axis value with same | read | ⟨data, wrote⟩
    · rw [same]
      exact refused
    · rw [read]
      exact ⟨_, _, .inr ⟨_, _, rfl⟩, .none, .refl _⟩
    · obtain ⟨fits, alike⟩ := alike_of_setData wrote
      exact ⟨_, _, .inr ⟨_, _, rfl⟩, .write .node axis.text data rfl fits, alike⟩
  | declare d name functions e =>
    exact only (.declare d name functions e none rfl rfl (by simp)) ⟨rfl, rfl, rfl, rfl, rfl⟩
  | declareOnContact contact name functions e =>
    rw [apply, Region.declareOnContact]
    split
    next present =>
      refine only (.declare .node name functions e (some contact) rfl rfl ?_)
        ⟨rfl, rfl, rfl, rfl, rfl⟩
      rintro _ ⟨rfl⟩
      exact present
    · exact refused
  | removeModel d name =>
    rw [apply, Region.removeModel]
    split
    next present => exact only (.remove d name present) ⟨rfl, rfl, rfl, rfl, rfl⟩
    · exact refused
  | setDisplay d name display => exact only (.display d name display) (.refl _)
  | markOld name => exact only (.markOld name) ⟨rfl, rfl, rfl, rfl, rfl⟩
  | setParameter name value => exact only (.parameter name value rfl) (.refl _)
  | addContact contact => exact only (.contact contact rfl) (.refl _)
  | addEquation equation variableName =>
    rw [apply, Region.addEquation]
    split
    · exact only .none ⟨rfl, rfl, rfl, rfl, rfl⟩
    · exact only (.write .node variableName _ rfl rfl) ⟨rfl, rfl, rfl, rfl, rfl⟩
  | removeEquation equation =>
    rw [apply, Region.removeEquation]
    split
    · exact only .none ⟨rfl, rfl, rfl, rfl, rfl⟩
    · exact refused
  | takeNotes => exact only .none ⟨rfl, rfl, rfl, rfl, rfl⟩
  | read d name => exact ⟨_, _, .inr ⟨d, name, rfl⟩, .none, .refl _⟩
  | find name => exact ⟨_, _, r.consulted_find name, .none, .refl _⟩

/-! ## What there is after a call -/

variable {change : Change β α}

namespace Change

theorem Effect.contains_models (effect : change.Effect r r')
    (present : r'.models.contains d name = true) :
    (d, name) ∈ change.introduces ∨ r.models.contains d name = true := by
  cases effect with
  | write d' name' data introduced _ =>
    rw [introduced, List.mem_singleton]
    exact ModelStore.contains_write.mp present
  | declare d' name' functions e contact introduced _ _ =>
    rw [introduced, List.mem_singleton]
    exact ModelStore.contains_declare.mp present
  | remove d' name' _ => exact .inr (ModelStore.contains_of_contains_remove present)
  | display d' name' display =>
    rw [Region.setDisplay, ModelStore.contains_setDisplay] at present
    exact .inr present
  | markOld name' => exact .inr (ModelStore.contains_markOld.symm.trans present)
  | parameter name' value => exact .inr (ModelStore.contains_markOld.symm.trans present)
  | none | contact => exact .inr present

theorem Effect.contains_contacts {contact : String} (effect : change.Effect r r')
    (present : r'.contacts.contains contact = true) :
    change.contact? = some contact ∨ r.contacts.contains contact = true := by
  cases effect with
  | contact added attached =>
    rw [Region.addContact, touch, Table.contains, Table.get?_insert] at present
    split at present
    next same => exact .inl (by rw [attached, same])
    · exact .inr present
  | none | write | declare | remove | display | markOld | parameter => exact .inr present

theorem Effect.parameters (effect : change.Effect r r') (unset : change.parameter? = .none) :
    r'.parameters = r.parameters := by
  cases effect with
  | parameter name value set => cases unset.symm.trans set
  | _ => rfl

theorem parameters_apply (change : Change β α) (r : Region β α) :
    (change.apply r).parameters =
      change.parameter?.elim r.parameters fun set => r.parameters.insert set.1 set.2 := by
  cases set : change.parameter? with
  | some x =>
    cases change <;> cases set
    rfl
  | none =>
    obtain ⟨r₀, r₁, consulted, effect, alike⟩ := change.apply_cases r
    have read : r₀.uncached.parameters = r.uncached.parameters :=
      congrArg Region.parameters consulted.declared
    exact alike.parameters.trans ((effect.parameters set).trans read)

theorem contains_models_apply (present : (change.apply r).models.contains d name = true) :
    (d, name) ∈ change.introduces ∨ r.models.contains d name = true := by
  obtain ⟨r₀, r₁, consulted, effect, alike⟩ := change.apply_cases r
  rw [alike.models] at present
  rw [← contains_of_uncached_eq consulted.declared]
  exact effect.contains_models present

theorem contains_contacts_apply {contact : String}
    (present : (change.apply r).contacts.contains contact = true) :
    change.contact? = some contact ∨ r.contacts.contains contact = true := by
  obtain ⟨r₀, r₁, consulted, effect, alike⟩ := change.apply_cases r
  rw [alike.contacts] at present
  rw [← contacts_of_uncached_eq consulted.declared]
  exact effect.contains_contacts present

end Change

/-- The model is there at some point of a history. -/
def Occurs (r : Region β α) (changes : List (Change β α)) (d : Domain) (name : String) : Prop :=
  ∃ past, past <+: changes ∧ (r.run past).models.contains d name = true

/-- A model that is there at some point is there from the start or introduced. -/
theorem Occurs.introduced {changes : List (Change β α)} (occurs : r.Occurs changes d name) :
    (d, name) ∈ changes.flatMap Change.introduces ∨ r.models.contains d name = true := by
  obtain ⟨past, ⟨rest, rfl⟩, present⟩ := occurs
  rw [List.flatMap_append, List.mem_append]
  induction past generalizing r with
  | nil => exact .inr present
  | cons change past ih =>
    rw [List.flatMap_cons, List.mem_append]
    rcases ih present with (later | after) | before
    · exact .inl (.inl (.inr later))
    · exact .inl (.inr after)
    · exact (Change.contains_models_apply before).imp_left fun here => .inl (.inl here)

end FiniteVolume.Region
