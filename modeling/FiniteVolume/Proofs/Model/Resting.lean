import FiniteVolume.Proofs.Model.Registration
import FiniteVolume.Proofs.Model.Sized

/-!
Stores between two calls.

Whatever calculators do, between two calls no model is being computed, written models are fresh, fresh
models have a value for every entity of their domain, and contacts are attached (`ModelStore.Resting`).
Calculations may nest and fail, and in the end nothing new is being computed (`ModelStore.Restores`).
-/
namespace FiniteVolume

variable {β α : Type}

/-! ## Models -/

/-- A model between two calls. -/
structure Model.Resting (size : Nat) (contacts : Table String Contact) (m : Model β α) : Prop where
  idle : m.state ≠ .computing
  written : m.source = .written → m.state = .fresh
  sized : m.state = .fresh → ∃ data, m.value = some data ∧ data.size = size
  attached : ∀ contact, m.contact = some contact → contacts.contains contact = true

namespace Model.Resting

variable {m : Model β α} {size : Nat} {contacts contacts' : Table String Contact}

theorem outdate (resting : m.Resting size contacts) : m.outdate.Resting size contacts where
  idle computing := resting.idle (state_outdate_eq_computing_iff.mp computing)
  written written := by
    rw [source_outdate] at written
    rw [outdate_of_written written]
    exact resting.written written
  sized fresh := by
    have same := outdate_of_fresh fresh
    rw [same] at fresh ⊢
    exact resting.sized fresh
  attached := by
    rw [contact_outdate]
    exact resting.attached

theorem outdateIf (resting : m.Resting size contacts) (condition : Prop) [Decidable condition] :
    (m.outdateIf condition).Resting size contacts := by
  unfold Model.outdateIf
  split
  · exact resting.outdate
  · exact resting

theorem mono (resting : m.Resting size contacts)
    (more : ∀ contact, contacts.contains contact = true → contacts'.contains contact = true) :
    m.Resting size contacts' :=
  { resting with attached := fun contact attached => more contact (resting.attached contact attached) }

theorem of_written {data : Field α} {display : DisplayType} (fits : data.size = size) :
    ({ source := .written, state := .fresh, value := some data, display } : Model β α).Resting size
      contacts where
  idle := by simp
  written _ := rfl
  sized _ := ⟨data, rfl, fits⟩
  attached _ attached := by cases attached

theorem of_declared {calculator : Calculator β α} {display : DisplayType} {contact : Option String}
    (attached : ∀ name, contact = some name → contacts.contains name = true) :
    ({ source := .computed calculator, state := .stale, value := none, display, contact } :
      Model β α).Resting size contacts where
  idle := by simp
  written := by simp
  sized := by simp
  attached := attached

end Model.Resting

def Calculator.Symbolic [BaseScalar β] [Scalar α] [Precision β α] (calculator : Calculator β α) : Prop :=
  ∃ functions e, calculator = .ofExpr functions e

namespace ModelStore

variable {s s' s'' : ModelStore β α} {size : Domain → Nat} {contacts contacts' : Table String Contact}
  {d : Domain} {name : String} {m : Model β α}

/-! ## Stores -/

structure Resting (size : Domain → Nat) (contacts : Table String Contact) (s : ModelStore β α) :
    Prop where
  models : ∀ d name m, s.get? d name = some m → m.Resting (size d) contacts
  mirrored : s.dependencies.Mirrored

theorem resting_empty : ({} : ModelStore β α).Resting size contacts where
  models _ _ _ found := by cases found
  mirrored := Dependencies.mirrored_empty

namespace Resting

variable (resting : s.Resting size contacts)

include resting

theorem replaced {new : Option (Model β α)} (replaced : Replaced s s' d name new)
    (rests : ∀ m, new = some m → m.Resting (size d) contacts) : s'.Resting size contacts where
  models d' n m found := by
    rw [replaced.models] at found
    split at found
    next same =>
      cases same
      exact rests m found
    · obtain ⟨m, present, rfl⟩ := Option.map_eq_some_iff.mp found
      exact (resting.models d' n m present).outdateIf _
  mirrored := replaced.mirrored

theorem write {data : Field α} (fits : data.size = size d) :
    (s.write d name data).Resting size contacts := by
  refine resting.replaced (replaced_write resting.mirrored data) fun m new => ?_
  cases new
  exact .of_written fits

theorem declare (calculator : Calculator β α) {contact : Option String}
    (attached : ∀ name, contact = some name → contacts.contains name = true) :
    (s.declare d name calculator contact).Resting size contacts := by
  refine resting.replaced (replaced_declare resting.mirrored calculator contact) fun m new => ?_
  cases new
  exact .of_declared attached

theorem remove (d : Domain) (name : String) : (s.remove d name).Resting size contacts := by
  cases present : s.contains d name with
  | true => exact resting.replaced (replaced_remove resting.mirrored present) (by simp)
  | false =>
    rw [remove_of_absent present]
    exact resting

theorem setDisplay (d : Domain) (name : String) (display : DisplayType) :
    (s.setDisplay d name display).Resting size contacts where
  models d' n m found := by
    rw [get?_setDisplay] at found
    split at found
    · obtain ⟨m, present, rfl⟩ := Option.map_eq_some_iff.mp found
      have before := resting.models d' n m present
      exact ⟨before.idle, before.written, before.sized, before.attached⟩
    · exact resting.models d' n m found
  mirrored := resting.mirrored

theorem mono (more : ∀ contact, contacts.contains contact = true → contacts'.contains contact = true) :
    s.Resting size contacts' :=
  ⟨fun d name m found => (resting.models d name m found).mono more, resting.mirrored⟩

end Resting

def Uses (kind : Calculator β α → Prop) (s : ModelStore β α) : Prop :=
  ∀ d name m calculator, s.get? d name = some m → m.source = .computed calculator → kind calculator

def Symbolic [BaseScalar β] [Scalar α] [Precision β α] (s : ModelStore β α) : Prop :=
  ∀ d name m calculator, s.get? d name = some m → m.source = .computed calculator → calculator.Symbolic

namespace Uses

variable {kind : Calculator β α → Prop} (uses : s.Uses kind)

include uses

theorem of_uncached_eq (same : s'.uncached = s.uncached) : s'.Uses kind := by
  intro d name m' calculator found' computed
  obtain ⟨m, found, alike⟩ := get?_of_uncached_eq same.symm found'
  exact uses d name m calculator found ((Model.source_of_uncached alike).trans computed)

/-- One model gives way to none or one of the kind, and others are outdated. -/
theorem replaced {new : Option (Model β α)} {wave : List String}
    (models : ∀ d' n, s'.get? d' n = if (d', n) = (d, name) then new
      else (s.get? d' n).map (·.outdateIf (n ∈ wave)))
    (used : ∀ m calculator, new = some m → m.source = .computed calculator → kind calculator) :
    s'.Uses kind := by
  intro d' n m calculator found computed
  rw [models] at found
  split at found
  · exact used m calculator found computed
  · obtain ⟨m, present, rfl⟩ := Option.map_eq_some_iff.mp found
    rw [Model.source_outdateIf] at computed
    exact uses d' n m calculator present computed

theorem write (data : Field α) : (s.write d name data).Uses kind := by
  refine uses.replaced (fun _ _ => get?_write data) fun m calculator new computed => ?_
  cases new
  cases computed

theorem declare {calculator : Calculator β α} (used : kind calculator) (contact : Option String) :
    (s.declare d name calculator contact).Uses kind := by
  refine uses.replaced (fun _ _ => get?_declare calculator contact) fun m calculator' new computed => ?_
  cases new
  cases computed
  exact used

theorem remove (d : Domain) (name : String) : (s.remove d name).Uses kind := by
  cases present : s.contains d name with
  | true => exact uses.replaced (fun _ _ => get?_remove present) (by simp)
  | false =>
    rw [remove_of_absent present]
    exact uses

theorem setDisplay (d : Domain) (name : String) (display : DisplayType) :
    (s.setDisplay d name display).Uses kind := by
  intro d' n m calculator found computed
  rw [get?_setDisplay] at found
  split at found
  · obtain ⟨m, present, rfl⟩ := Option.map_eq_some_iff.mp found
    exact uses d' n m calculator present computed
  · exact uses d' n m calculator found computed

end Uses

/-! ## Calculations -/

/-- Fresh models have a value for every entity of their domain. -/
def Valued (s : ModelStore β α) (size : Domain → Nat) : Prop :=
  ∀ d name m, s.get? d name = some m → m.state = .fresh →
    ∃ data, m.value = some data ∧ data.size = size d

/-- The second store is that after calculations begun in the first, all of which have ended. -/
structure Restores (size : Domain → Nat) (s s' : ModelStore β α) : Prop where
  declared : s'.uncached = s.uncached
  valued : s.Valued size → s'.Valued size
  stack : ∀ d name, s'.state? d name = some .computing → s.state? d name = some .computing

namespace Restores

theorem refl (s : ModelStore β α) : Restores size s s := ⟨rfl, id, fun _ _ => id⟩

theorem trans (first : Restores size s s') (second : Restores size s' s'') : Restores size s s'' :=
  ⟨second.declared.trans first.declared, second.valued ∘ first.valued,
    fun d name => first.stack d name ∘ second.stack d name⟩

theorem state?_replace (found : s.get? d name = some m) {m' : Model β α} {d' : Domain}
    {name' : String} : (s.replace d name m').state? d' name' =
      if (d', name') = (d, name) then some m'.state else s.state? d' name' := by
  rw [state?, state?, get?_replace]
  split
  next same => cases same; rw [found]; rfl
  · rfl

/-- A calculation marks a stale model at the start and caches what it returns in the end. -/
theorem calculation (target : Target) {calculator : Calculator β α} (found : s.get? d name = some m)
    (computed : m.source = .computed calculator)
    (ran : Restores size (s.replace d name { m with state := .computing }) s')
    (about : (target.domain, target.name) = (d, name)) {result : Except ModelError (Field α)}
    (fits : ∀ data, result = .ok data → data.size = size d) :
    Restores size s (s'.conclude target result).2 := by
  obtain ⟨rfl, rfl⟩ := Prod.mk.inj about
  have marked : (s.replace target.domain target.name { m with state := .computing }).uncached = s.uncached :=
    uncached_replace found (m.uncached_cache computed .computing m.value)
  obtain ⟨m', found', same⟩ := get?_of_uncached_eq (ran.declared.trans marked) found
  have computed' := (Model.source_of_uncached same).trans computed
  rw [conclude_of_found found']
  refine ⟨?_, fun valued => ?_, fun d' name' computing => ?_⟩
  · have cache : (m'.concluded result).uncached = m'.uncached := by
      cases result <;> exact m'.uncached_cache computed' _ _
    rw [uncached_replace found' cache, ran.declared, marked]
  · -- The model is marked meanwhile, so what is fresh before the end was fresh before the start or valued.
    have valued' : s'.Valued size := by
      refine ran.valued fun d' name' m₀ found₀ fresh => ?_
      rw [get?_replace] at found₀
      split at found₀
      next here =>
        cases here
        rw [found] at found₀
        cases found₀
        simp at fresh
      · exact valued d' name' m₀ found₀ fresh
    intro d' name' m₀ found₀ fresh
    rw [get?_replace] at found₀
    split at found₀
    next here =>
      cases here
      rw [found'] at found₀
      cases found₀
      cases result with
      | ok data => exact ⟨data, rfl, fits data rfl⟩
      | error e => simp [Model.concluded] at fresh
    · exact valued' d' name' m₀ found₀ fresh
  · rw [state?_replace found'] at computing
    split at computing
    · exact absurd (Option.some.inj computing) Model.state_concluded_ne_computing
    next other =>
      have before := ran.stack d' name' computing
      rwa [state?_replace found, if_neg other] at before

theorem resting (restores : Restores size s s') (resting : s.Resting size contacts) :
    s'.Resting size contacts where
  models d name m' found' := by
    obtain ⟨m, found, same⟩ := get?_of_uncached_eq restores.declared.symm found'
    have before := resting.models d name m found
    refine ⟨fun computing => ?_, fun written => ?_, fun fresh => ?_, ?_⟩
    · have still := restores.stack d name (Option.map_eq_some_iff.mpr ⟨m', found', computing⟩)
      obtain ⟨_, again, computing⟩ := Option.map_eq_some_iff.mp still
      cases found.symm.trans again
      exact before.idle computing
    · have written₀ := (Model.source_of_uncached same).trans written
      rw [Model.uncached_of_written written₀, Model.uncached_of_written written] at same
      exact same ▸ before.written written₀
    · have valued : s.Valued size := fun d name m found => (resting.models d name m found).sized
      exact restores.valued valued d name m' found' fresh
    · rw [← Model.contact_of_uncached same]
      exact before.attached
  mirrored := by
    rw [show s'.dependencies = s.dependencies from (congrArg ModelStore.dependencies restores.declared :)]
    exact resting.mirrored

/-- Models that are outdated have been read no less. -/
theorem markOld (s : ModelStore β α) (name : String) : Restores size s (s.markOld name) where
  declared := uncached_markOld
  valued valued d n m found fresh := by
    rw [get?_markOld] at found
    obtain ⟨m, present, rfl⟩ := Option.map_eq_some_iff.mp found
    have same := Model.outdateIf_of_fresh fresh
    rw [same] at fresh ⊢
    exact valued d n m present fresh
  stack d n computing := by
    rw [state?, get?_markOld, Option.map_map] at computing
    obtain ⟨m, present, computing⟩ := Option.map_eq_some_iff.mp computing
    exact Option.map_eq_some_iff.mpr ⟨m, present, Model.state_outdateIf_eq_computing_iff.mp computing⟩

end Restores

theorem Resting.markOld (resting : s.Resting size contacts) (name : String) :
    (s.markOld name).Resting size contacts := (Restores.markOld s name).resting resting

end ModelStore

/-! ## Regions -/

namespace Region

variable {r r' r'' : Region β α} {d : Domain} {name : String}

def Resting (r : Region β α) : Prop := r.models.Resting r.size r.contacts

/-- The second region is that after reads begun in the first, all of which have ended. -/
structure Restores (r r' : Region β α) : Prop where
  declared : r'.uncached = r.uncached
  models : r.models.Restores r.size r'.models

namespace Restores

theorem refl (r : Region β α) : Restores r r := ⟨rfl, .refl _⟩

theorem size_eq (restores : Restores r r') : r'.size = r.size :=
  eq_of_uncached_eq (f := Region.size) (fun _ => rfl) restores.declared

theorem trans (first : Restores r r') (second : Restores r' r'') : Restores r r'' :=
  ⟨second.declared.trans first.declared, first.models.trans (first.size_eq ▸ second.models)⟩

theorem resting (restores : Restores r r') (resting : r.Resting) : r'.Resting := by
  rw [Resting, restores.size_eq, eq_of_uncached_eq (f := Region.contacts) (fun _ => rfl) restores.declared]
  exact restores.models.resting resting

end Restores

section

variable [Scalar α]

theorem restores_read (r : Region β α) (d : Domain) (name : String) : Restores r (r.read d name).2 := by
  refine readWithin_rel .refl (fun _ _ _ => .trans) (fun _ r => .refl r) ?_ _ d name r
  intro r r' d name m calculator outcome found _ computed ran
  have fits : ∀ data, r'.settle (r.targetOf d name m) outcome = .ok data → data.size = r.size d :=
    fun _ => size_of_settle
  have models := ran.models.calculation (r.targetOf d name m) found computed rfl fits
  refine ⟨?_, models⟩
  rw [endRead_eq, uncached]
  simp only [models.declared]
  exact congrArg (fun r' : Region β α => { r' with models := r.models.uncached }) ran.declared

end

namespace Resting

variable (resting : r.Resting)

include resting

theorem of_alike (alike : Alike r r') : r'.Resting := by
  rw [Resting, alike.models, alike.contacts, show r'.size = r.size from congrArg Mesh.size alike.mesh]
  exact resting

theorem setParameter (value : β) : (r.setParameter name value).Resting :=
  ModelStore.Resting.markOld resting name

theorem addContact (contact : Contact) : (r.addContact contact).Resting := by
  refine ModelStore.Resting.mono resting fun name attached => ?_
  rw [Region.addContact, touch, Table.contains, Table.get?_insert]
  split
  · rfl
  · exact attached

theorem declare (calculator : Calculator β α) : (r.declare d name calculator).Resting :=
  ModelStore.Resting.declare resting calculator (by simp)

theorem declareOnContact {contact : String} {calculator : Calculator β α}
    (declared : r.declareOnContact contact name calculator = .ok r') : r'.Resting := by
  unfold Region.declareOnContact at declared
  split at declared
  next present =>
    cases declared
    refine ModelStore.Resting.declare resting calculator fun _ same => ?_
    cases same
    exact present
  · cases declared

variable [Scalar α]

theorem consulted (consulted : Consulted r r') : r'.Resting := by
  rcases consulted with rfl | ⟨d, name, rfl⟩
  · exact resting
  · exact (r.restores_read d name).resting resting

variable [BaseScalar β] [Precision β α]

theorem effect {change : Change β α} (effect : change.Effect r r') : r'.Resting := by
  cases effect with
  | none => exact resting
  | write d name data _ fits => exact ModelStore.Resting.write resting fits
  | declare d name functions e contact _ _ attached => exact ModelStore.Resting.declare resting _ attached
  | remove d name => exact ModelStore.Resting.remove resting d name
  | display d name display => exact ModelStore.Resting.setDisplay resting d name display
  | markOld name => exact ModelStore.Resting.markOld resting name
  | parameter name value => exact resting.setParameter value
  | contact contact => exact resting.addContact contact

/-- Every call leaves a region at rest. -/
theorem apply (change : Change β α) : (change.apply r).Resting := by
  obtain ⟨r₀, r₁, consulted, effect, alike⟩ := change.apply_cases r
  exact ((resting.consulted consulted).effect effect).of_alike alike

end Resting

/-- Calls leave models whose calculators are of a kind, if expressions are of the kind. -/
theorem uses_apply [BaseScalar β] [Scalar α] [Precision β α] {kind : Calculator β α → Prop}
    (expressions : ∀ functions e, kind (.ofExpr functions e)) (uses : r.models.Uses kind)
    (change : Change β α) : (change.apply r).models.Uses kind := by
  obtain ⟨r₀, r₁, consulted, effect, alike⟩ := change.apply_cases r
  have uses₀ : r₀.models.Uses kind := uses.of_uncached_eq (congrArg Region.models consulted.declared)
  rw [alike.models]
  cases effect with
  | none | contact => exact uses₀
  | write d name data => exact uses₀.write data
  | declare d name functions e contact => exact uses₀.declare (expressions functions e) contact
  | remove d name => exact uses₀.remove d name
  | display d name display => exact uses₀.setDisplay d name display
  | markOld | parameter => exact uses₀.of_uncached_eq ModelStore.uncached_markOld

theorem resting_create [BaseScalar β] [Precision β α] (instanceId : Nat) (device name : String)
    (mesh : Mesh β) (chunking : Chunking) : (create instanceId device name mesh chunking : Region β α).Resting :=
  create_induction ModelStore.resting_empty fun _ _ _ resting _ fits =>
    ModelStore.Resting.write resting fits

theorem uses_create [Precision β α] (kind : Calculator β α → Prop) (instanceId : Nat) (device name : String)
    (mesh : Mesh β) (chunking : Chunking) :
    (create instanceId device name mesh chunking : Region β α).models.Uses kind := by
  have empty : ({} : ModelStore β α).Uses kind := fun _ _ _ _ found => by cases found
  exact create_induction (P := fun r => r.models.Uses kind) empty fun _ _ _ uses _ _ => uses.write _

end Region

end FiniteVolume
