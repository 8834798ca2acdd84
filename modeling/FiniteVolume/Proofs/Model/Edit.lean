import FiniteVolume.Proofs.Model.Frame
import FiniteVolume.Proofs.Model.Freshness

/-!
Edits of a region.

`Region.Coherent` is what histories keep: names in use, registrations, and fresh models that are
current. `Edit` is what every call but a read does to a region: some names change, with all that
depend on them. `Edit.keeps` is the one step lemma for all of them.
-/
namespace FiniteVolume

variable {β α : Type}

namespace Region

variable [Scalar α] {r r' : Region β α} {d : Domain} {name : String} {m : Model β α}

/-! ## The invariant -/

variable [BaseScalar β] [Precision β α] {used : Domain → String → Prop}

/-- No corner of element edges in the expression is read from an edge model in use. -/
def Plain (used : Domain → String → Prop) (e : Expr β) : Prop :=
  ∀ y, .model y ∈ e.leaves → ∀ source, ReadsEdgeEnd y source → ¬used source.1 source.2

/-- A settled region with names in use, each computed model registered under its dependencies, and
fresh models current. -/
structure Coherent (used : Domain → String → Prop) (r : Region β α) : Prop extends Settled r where
  known : ∀ {d name m}, r.models.get? d name = some m → used d name
  registered : ∀ {d name m calculator}, r.models.get? d name = some m →
    m.source = .computed calculator →
      ∀ x ∈ calculator.dependencies, name ∈ r.models.dependencies.dependentsOf x
  plain : ∀ {d name m calculator}, r.models.get? d name = some m →
    m.source = .computed calculator →
      ∃ functions e, calculator = Calculator.ofExpr functions e ∧ Plain used e
  current : r.Current

theorem Coherent.of_underway (coherent : Coherent used r) (underway : Underway r r')
    (balanced : Balanced r r') : Coherent used r' where
  toSettled := coherent.toSettled.of_underway underway balanced
  known found' := by
    obtain ⟨m, found, -⟩ := get?_of_uncached_eq underway.declared.symm found'
    exact coherent.known found
  registered found' computed := by
    obtain ⟨m, found, same⟩ := get?_of_uncached_eq underway.declared.symm found'
    have dependencies : r'.models.dependencies = r.models.dependencies :=
      congrArg (fun r => r.models.dependencies) underway.declared
    rw [dependencies]
    exact coherent.registered found ((Model.source_of_uncached same).trans computed)
  plain found' computed := by
    obtain ⟨m, found, same⟩ := get?_of_uncached_eq underway.declared.symm found'
    exact coherent.plain found ((Model.source_of_uncached same).trans computed)
  current := coherent.current.of_underway underway

theorem Coherent.read (coherent : Coherent used r) (d : Domain) (name : String) :
    Coherent used (r.read d name).2 :=
  coherent.of_underway
    (coherent.underway.read coherent.wellDeclared r.waiting_le_size d name).1
    (readWithin_balanced r.waiting_le_size)

theorem Coherent.consulted (coherent : Coherent used r) (consulted : Consulted r r') :
    Coherent used r' := by
  rcases consulted with rfl | ⟨d, name, rfl⟩
  · exact coherent
  · exact coherent.read d name

/-! ## Edits -/

/-- A model that an edit leaves in place. It is not fresh afterwards unless it was before and
depends on nothing changed. -/
structure Carried (r r' : Region β α) (changed : String → Prop) (name : String)
    (m m' : Model β α) : Prop where
  declared : m'.declaration = m.declaration
  registered : ∀ x, name ∈ r.models.dependencies.dependentsOf x →
    name ∈ r'.models.dependencies.dependentsOf x
  fresh : m'.state = .fresh → m.state = .fresh ∧ m'.value = m.value
  unchanged : ∀ calculator, m.source = .computed calculator → m'.state = .fresh → ¬changed name

structure Introduced (used : Domain → String → Prop) (r' : Region β α) (d : Domain)
    (name : String) (m' : Model β α) : Prop where
  inUse : used d name
  computed : ∀ calculator, m'.source = .computed calculator → m'.state ≠ .fresh ∧
    (∀ x ∈ calculator.dependencies, name ∈ r'.models.dependencies.dependentsOf x) ∧
    ∃ functions e, calculator = Calculator.ofExpr functions e ∧ Plain used e

/-- The second region results from the first by a change of the given names, which include all that
depend on them. -/
structure Edit (used : Domain → String → Prop) (r r' : Region β α) (changed : String → Prop) :
    Prop where
  settled : r'.Settled
  mesh : r'.mesh = r.mesh
  chunking : r'.chunking = r.chunking
  parameters : ∀ name, ¬changed name → r'.parameter? name = r.parameter? name
  contacts : ∀ {d name m contact}, ¬changed name → r.models.get? d name = some m →
    m.contact = some contact → r'.contacts.get? contact = r.contacts.get? contact
  closed : ∀ x name, changed x → name ∈ r'.models.dependencies.dependentsOf x → changed name
  present : ∀ d name, ¬changed name → r'.models.contains d name = r.models.contains d name
  models : ∀ {d name m'}, r'.models.get? d name = some m' →
    (∃ m, r.models.get? d name = some m ∧ Carried r r' changed name m m') ∨
    (changed name ∧ Introduced used r' d name m')

namespace Edit

variable {changed : String → Prop} (edit : Edit used r r' changed) (coherent : Coherent used r)

include edit

theorem carried (unchanged : ¬changed name) (found : r.models.get? d name = some m) :
    ∃ m', r'.models.get? d name = some m' ∧ Carried r r' changed name m m' := by
  have present := (edit.present d name unchanged).trans (ModelStore.contains_iff.mpr ⟨m, found⟩)
  obtain ⟨m', found'⟩ := ModelStore.contains_iff.mp present
  rcases edit.models found' with ⟨m₀, found₀, carried⟩ | ⟨change, -⟩
  · cases found.symm.trans found₀
    exact ⟨m', found', carried⟩
  · exact absurd change unchanged

include coherent

theorem known {m' : Model β α} (found' : r'.models.get? d name = some m') : used d name := by
  rcases edit.models found' with ⟨m, found, -⟩ | ⟨-, introduced⟩
  · exact coherent.known found
  · exact introduced.inUse

theorem agree : Agree r r' changed where
  mesh := edit.mesh
  chunking := edit.chunking
  parameters := edit.parameters
  contacts := edit.contacts
  models d name unchanged := by
    cases found : r.models.get? d name with
    | some m =>
      obtain ⟨m', found', carried⟩ := edit.carried unchanged found
      rw [found', Option.map_some, Option.map_some, carried.declared]
    | none =>
      cases found' : r'.models.get? d name with
      | none => rfl
      | some m' =>
        rcases edit.models found' with ⟨m, present, -⟩ | ⟨change, -⟩
        · rw [found] at present
          cases present
        · exact absurd change unchanged
  expressed {d name m calculator} unchanged found computed := by
    obtain ⟨functions, e, rfl, plain⟩ := coherent.plain found computed
    obtain ⟨m', found', carried⟩ := edit.carried unchanged found
    -- The name is registered under its dependencies, so a changed one would change it too.
    have untouched : ∀ x ∈ e.dependencies, ¬changed x := fun x member change =>
      unchanged (edit.closed x name change
        (carried.registered x (coherent.registered found computed x member)))
    have absent : ∀ {r : Region β α} {source : Domain × String},
        (∀ {m}, r.models.get? source.1 source.2 = some m → used source.1 source.2) →
        ¬used source.1 source.2 → r.models.contains source.1 source.2 = false := by
      intro r source known unused
      refine Bool.eq_false_iff.mpr fun present => unused ?_
      obtain ⟨m, found⟩ := ModelStore.contains_iff.mp present
      exact known found
    refine ⟨functions, e, rfl, fun leaf member => ⟨?_, ?_, ?_⟩⟩
    · exact untouched _ (Expr.mem_dependencies.mpr ⟨leaf, member, .inl rfl⟩)
    · exact fun base s split => untouched _ (Expr.mem_dependencies.mpr ⟨leaf, member, .inr ⟨s, split⟩⟩)
    · rintro y rfl source ends
      have unused := plain y member source ends
      exact ⟨absent coherent.known unused, absent (edit.known coherent) unused⟩

omit coherent in
theorem current_of_written {m' : Model β α} (found' : r'.models.get? d name = some m')
    (written : m'.source = .written) :
    ∃ data, m'.value = some data ∧ r'.uncached.Yields d name (.ok data) := by
  have settled := edit.settled.models d name m' found'
  have fresh := settled.written written
  obtain ⟨data, value, -⟩ := settled.sized fresh
  have kept : r'.uncached.models.get? d name = some m' := by
    rw [uncached, ModelStore.get?_uncached, found', Option.map_some,
      Model.uncached_of_written written]
  exact ⟨data, value, 0, valueWithin_of_fresh kept fresh value⟩

/-- An edit keeps fresh models current: a computed one depends on nothing changed. -/
theorem current : r'.Current := by
  intro d name m' found' fresh
  cases kind : m'.source with
  | written => exact edit.current_of_written found' kind
  | computed calculator =>
    rcases edit.models found' with ⟨m, found, carried⟩ | ⟨-, introduced⟩
    · -- A computed model is carried over fresh only if its name is unchanged, and then everything
      -- that its recomputation asks for is the same as before.
      have source := (Model.source_of_declaration carried.declared).symm.trans kind
      have unchanged := carried.unchanged calculator source fresh
      obtain ⟨before, value⟩ := carried.fresh fresh
      obtain ⟨data, cached, j, computed⟩ := coherent.current d name m found before
      refine ⟨data, value.trans cached, j, ?_⟩
      rw [(edit.agree coherent).valueWithin_eq j d name unchanged, computed]
    · exact absurd fresh (introduced.computed calculator kind).1

theorem keeps : Coherent used r' where
  toSettled := edit.settled
  known := edit.known coherent
  registered found' kind x member := by
    rcases edit.models found' with ⟨m, found, carried⟩ | ⟨-, introduced⟩
    · have source := (Model.source_of_declaration carried.declared).symm.trans kind
      exact carried.registered x (coherent.registered found source x member)
    · exact (introduced.computed _ kind).2.1 x member
  plain found' kind := by
    rcases edit.models found' with ⟨m, found, carried⟩ | ⟨-, introduced⟩
    · exact coherent.plain found ((Model.source_of_declaration carried.declared).symm.trans kind)
    · exact (introduced.computed _ kind).2.2
  current := edit.current coherent

end Edit

def Downstream (r : Region β α) (x name : String) : Prop :=
  name = x ∨ name ∈ r.models.dependencies.wave x

omit [Scalar α] [BaseScalar β] [Precision β α] in
theorem Downstream.next {x y : String} (downstream : r.Downstream x y)
    (dependent : name ∈ r.models.dependencies.dependentsOf y) : r.Downstream x name := by
  rcases downstream with rfl | reached
  · exact .inr (Dependencies.mem_wave_of_dependent dependent)
  · exact .inr (Dependencies.mem_wave_of_mem_wave reached dependent)

omit [Scalar α] [BaseScalar β] [Precision β α] in
theorem Carried.outdate {changed p : String → Prop} [Decidable (p name)]
    (registered : ∀ x, name ∈ r.models.dependencies.dependentsOf x →
      name ∈ r'.models.dependencies.dependentsOf x)
    (outdated : changed name → p name) :
    Carried r r' changed name m (m.outdateIf (p name)) where
  declared := Model.declaration_of_uncached Model.uncached_outdateIf
  registered := registered
  fresh fresh := by
    have same := Model.outdateIf_of_fresh fresh
    rw [same] at fresh ⊢
    exact ⟨fresh, rfl⟩
  unchanged calculator computed fresh change :=
    Model.not_of_outdateIf_fresh (Model.isComputed_iff.mpr ⟨calculator, computed⟩) fresh
      (outdated change)

/-- Replacing or removing a model is an edit, when no model of its name is on another domain. -/
theorem Edit.of_replaced {x : String} {new : Option (Model β α)} (coherent : Coherent used r)
    (single : ∀ d d' name, used d name → used d' name → d = d')
    (replaced : ModelStore.Replaced r.models r'.models d x new) (settled : r'.Settled)
    (mesh : r'.mesh = r.mesh) (chunking : r'.chunking = r.chunking)
    (parameters : r'.parameters = r.parameters) (contacts : r'.contacts = r.contacts)
    (inUse : used d x)
    (plain : ∀ m calculator, new = some m → m.source = .computed calculator → m.state ≠ .fresh ∧
      ∃ functions e, calculator = Calculator.ofExpr functions e ∧ Plain used e) :
    Edit used r r' (r'.Downstream x) where
  settled := settled
  mesh := mesh
  chunking := chunking
  parameters _ _ := by rw [parameter?, parameters, parameter?]
  contacts _ _ _ := by rw [contacts]
  closed _ _ downstream dependent := downstream.next dependent
  present d' n unchanged := by
    have other : (d', n) ≠ (d, x) := fun same => unchanged (.inl (Prod.mk.inj same).2)
    have same := congrArg Option.isSome (replaced.models d' n)
    rwa [if_neg other, Option.isSome_map] at same
  models {d' n m'} found' := by
    rw [replaced.models] at found'
    split at found'
    next same =>
      cases same
      refine .inr ⟨.inl rfl, inUse, fun calculator computed => ?_⟩
      obtain ⟨stale, expressed⟩ := plain m' calculator found' computed
      exact ⟨stale, replaced.registered m' calculator found' computed, expressed⟩
    next other =>
      obtain ⟨m, found, rfl⟩ := Option.map_eq_some_iff.mp found'
      have distinct : n ≠ x := by
        rintro rfl
        exact other (Prod.ext (single _ _ _ (coherent.known found) inUse) rfl)
      refine .inl ⟨m, found, .outdate (p := (· ∈ r'.models.dependencies.wave x)) ?_ ?_⟩
      · exact fun y => replaced.kept n y distinct
      · exact fun downstream => downstream.resolve_left distinct

theorem Edit.of_markOld {x : String} (models : r'.models = r.models.markOld x)
    (settled : r'.Settled) (mesh : r'.mesh = r.mesh) (chunking : r'.chunking = r.chunking)
    (parameters : ∀ name, name ≠ x → r'.parameter? name = r.parameter? name)
    (contacts : r'.contacts = r.contacts) : Edit used r r' (r'.Downstream x) where
  settled := settled
  mesh := mesh
  chunking := chunking
  parameters name unchanged := parameters name fun same => unchanged (.inl same)
  contacts _ _ _ := by rw [contacts]
  closed _ _ downstream dependent := downstream.next dependent
  present d' n unchanged := by
    have entry : r'.models.get? d' n = _ := models ▸ ModelStore.get?_markOld
    have same := congrArg Option.isSome entry
    rwa [Option.isSome_map] at same
  models {d' n m'} found' := by
    rw [models, ModelStore.get?_markOld] at found'
    obtain ⟨m, found, rfl⟩ := Option.map_eq_some_iff.mp found'
    refine .inl ⟨m, found, .outdate
      (p := fun n => n = x ∨ n ∈ r.models.dependencies.wave x) ?_ ?_⟩
    · rw [models, ModelStore.dependencies_markOld]
      exact fun _ => id
    · rw [Downstream, models, ModelStore.dependencies_markOld]
      exact id

/-- The models on a contact, and all that depends on them. -/
def FromContact (r : Region β α) (contact name : String) : Prop :=
  ∃ d x m, r.models.get? d x = some m ∧ m.contact = some contact ∧ r.Downstream x name

/-- No value that was computed from the contact is cached. -/
def Unread (r : Region β α) (contact : String) : Prop :=
  ∀ d name m, r.models.get? d name = some m → m.isComputed = true → m.state = .fresh →
    ¬r.FromContact contact name

omit [Scalar α] [BaseScalar β] [Precision β α] in
/-- Nothing is cached from any contact where no computed model is fresh. -/
theorem unread_of_not_fresh (stale : ∀ entry ∈ r.models.models.entries,
    (entry.2.isComputed && entry.2.state == .fresh) = false) (contact : String) :
    r.Unread contact := by
  intro d name m found computed fresh
  have here := stale _ (Table.get?_eq_some_iff.mp found)
  rw [computed, fresh] at here
  cases here

theorem Settled.unread (settled : r.Settled) {contact : String}
    (new : r.contacts.contains contact = false) : r.Unread contact := by
  rintro - - - - - - ⟨d, name, m, found, atContact, -⟩
  have present := settled.wellDeclared.attached found atContact
  rw [new] at present
  cases present

/-- Replacing a contact that nothing cached was computed from is an edit of the models on it and of
all that depends on them. -/
theorem Edit.of_contact {contact : Contact} (settled : (r.addContact contact).Settled)
    (unread : r.Unread contact.name) :
    Edit used r (r.addContact contact) (r.FromContact contact.name) where
  settled := settled
  mesh := rfl
  chunking := rfl
  parameters _ _ := rfl
  contacts {d name m attached} unchanged found atContact := by
    rw [addContact, touch, Table.get?_insert, if_neg]
    rintro rfl
    exact unchanged ⟨d, name, m, found, atContact, .inl rfl⟩
  closed _ _ := fun ⟨d, x, m, found, atContact, downstream⟩ dependent =>
    ⟨d, x, m, found, atContact, downstream.next dependent⟩
  present _ _ _ := rfl
  models {d name m'} found' := .inl ⟨m', found', {
    declared := rfl
    registered := fun _ => id
    fresh := fun fresh => ⟨fresh, rfl⟩
    unchanged := fun calculator computed fresh =>
      unread d name m' found' (Model.isComputed_iff.mpr ⟨calculator, computed⟩) fresh }⟩

theorem Edit.of_display (settled : r'.Settled) (mesh : r'.mesh = r.mesh)
    (chunking : r'.chunking = r.chunking) (parameters : r'.parameters = r.parameters)
    (contacts : r'.contacts = r.contacts)
    (dependencies : r'.models.dependencies = r.models.dependencies)
    (present : r'.models.contains = r.models.contains)
    (models : ∀ {d name m'}, r'.models.get? d name = some m' →
      ∃ m, r.models.get? d name = some m ∧ m' = { m with display := m'.display }) :
    Edit used r r' (fun _ => False) where
  settled := settled
  mesh := mesh
  chunking := chunking
  parameters _ _ := by rw [parameter?, parameters, parameter?]
  contacts _ _ _ := by rw [contacts]
  closed _ _ change _ := change.elim
  present _ _ _ := by rw [present]
  models found' := by
    obtain ⟨m, found, same⟩ := models found'
    refine .inl ⟨m, found, ?_, ?_, ?_, fun _ _ _ => id⟩
    · rw [same]
      cases source : m.source <;> simp [Model.declaration, Model.uncached, source]
    · rw [dependencies]
      exact fun _ => id
    · rw [same]
      exact fun fresh => ⟨fresh, rfl⟩

end Region

end FiniteVolume
