import FiniteVolume.Proofs.Model.Cycle
import FiniteVolume.Proofs.Model.Resting

/-!
Regions between two calls.

Whatever the history, no model is being computed when it is over, written models are fresh and fresh
models have a value for every entity of their domain (`Region.Settled`). From such a region every
read terminates, leaves such a region and accounts for the model it is about (`Region.ReadsWell`).
-/
namespace FiniteVolume

variable {β α : Type} [BaseScalar β] [Scalar α] [Precision β α]

/-! ## Settled regions -/

structure Model.Settled (size : Nat) (contacts : Table String Contact) (m : Model β α) : Prop where
  idle : m.state ≠ .computing
  written : m.source = .written → m.state = .fresh
  sized : m.state = .fresh → ∃ data, m.value = some data ∧ data.size = size
  expressed : ∀ calculator, m.source = .computed calculator →
    ∃ functions e, calculator = Calculator.ofExpr functions e
  attached : ∀ contact, m.contact = some contact → contacts.contains contact = true

namespace Model.Settled

variable {m : Model β α} {size : Nat} {contacts : Table String Contact}

theorem resting (settled : m.Settled size contacts) : m.Resting size contacts :=
  ⟨settled.idle, settled.written, settled.sized, settled.attached⟩

theorem iff_resting : m.Settled size contacts ↔ m.Resting size contacts ∧
    ∀ calculator, m.source = .computed calculator → calculator.Symbolic :=
  ⟨fun settled => ⟨settled.resting, settled.expressed⟩, fun ⟨resting, expressed⟩ =>
    ⟨resting.idle, resting.written, resting.sized, expressed, resting.attached⟩⟩

theorem outdateIf (settled : m.Settled size contacts) (condition : Prop) [Decidable condition] :
    (m.outdateIf condition).Settled size contacts := by
  rw [iff_resting, source_outdateIf]
  exact ⟨settled.resting.outdateIf condition, settled.expressed⟩

theorem uncached (settled : m.Settled size contacts) : m.uncached.Settled size contacts := by
  cases source : m.source with
  | written => rwa [Model.uncached_of_written source]
  | computed calculator =>
    have stale : m.uncached.state = .stale := by simp [Model.uncached, source]
    refine ⟨by simp [stale], fun written => ?_, fun fresh => ?_, ?_, ?_⟩
    · rw [Model.source_uncached, source] at written
      cases written
    · rw [stale] at fresh
      cases fresh
    · rw [Model.source_uncached]
      exact settled.expressed
    · rw [Model.contact_uncached]
      exact settled.attached

theorem of_written {data : Field α} {display : DisplayType} (fits : data.size = size) :
    ({ source := .written, state := .fresh, value := some data, display } : Model β α).Settled size
      contacts :=
  iff_resting.mpr ⟨.of_written fits, nofun⟩

end Model.Settled

namespace Region

variable {r r' : Region β α} {d : Domain} {name : String}

/-- A region between two calls. -/
structure Settled (r : Region β α) : Prop where
  models : ∀ d name m, r.models.get? d name = some m → m.Settled (r.size d) r.contacts
  mirrored : r.models.dependencies.Mirrored

theorem Resting.settled (resting : r.Resting) (symbolic : r.models.Symbolic) : r.Settled where
  models d name m found := Model.Settled.iff_resting.mpr
    ⟨resting.models d name m found, fun calculator => symbolic d name m calculator found⟩
  mirrored := resting.mirrored

namespace Settled

theorem resting (settled : r.Settled) : r.Resting :=
  ⟨fun d name m found => (settled.models d name m found).resting, settled.mirrored⟩

theorem symbolic (settled : r.Settled) : r.models.Uses Calculator.Symbolic :=
  fun d name m calculator found => (settled.models d name m found).expressed calculator

theorem idle (settled : r.Settled) : r.Idle := by
  intro d name onStack
  obtain ⟨m, found, computing⟩ := onStack_iff.mp onStack
  exact (settled.models d name m found).idle computing

theorem wellDeclared (settled : r.Settled) : r.WellDeclared where
  faithful {d name m calculator} found computed := by
    obtain ⟨functions, e, rfl⟩ := (settled.models d name m found).expressed calculator computed
    exact Calculator.faithful_ofExpr functions e
  attached {d name m contact} found := (settled.models d name m found).attached contact

theorem underway (settled : r.Settled) : Underway r r :=
  .refl (fun found => (settled.models _ _ _ found).written)
    (fun found => (settled.models _ _ _ found).sized)

/-! ### Reads -/

theorem of_underway (settled : r.Settled) (underway : Underway r r') (balanced : Balanced r r') :
    r'.Settled where
  models d name m' found' := by
    obtain ⟨m, found, same⟩ := get?_of_uncached_eq underway.declared.symm found'
    have before := settled.models d name m found
    have source := (Model.source_of_uncached same).symm
    have contact := (Model.contact_of_uncached same).symm
    refine ⟨fun computing => ?_, underway.written found', fun fresh => ?_, ?_, ?_⟩
    · have onStack := onStack_iff.mpr ⟨m', found', computing⟩
      exact settled.idle d name ((balanced.stack d name).mp onStack)
    · obtain ⟨data, value, size, -⟩ := underway.current found' fresh
      exact ⟨data, value, size⟩
    · rw [source]
      exact before.expressed
    · rw [contact, contacts_of_uncached_eq underway.declared]
      exact before.attached
  mirrored := by
    have same : r'.models.dependencies = r.models.dependencies :=
      congrArg (fun r => r.models.dependencies) underway.declared
    rw [same]
    exact settled.mirrored

theorem read (settled : r.Settled) (d : Domain) (name : String) : (r.read d name).2.Settled :=
  have restores := r.restores_read d name
  (restores.resting settled.resting).settled (settled.symbolic.of_uncached_eq restores.models.declared)

/-! ### Effects -/

theorem replaced (settled : r.Settled) {new : Option (Model β α)}
    (replaced : ModelStore.Replaced r.models r'.models d name new) (mesh : r'.mesh = r.mesh)
    (contacts : r'.contacts = r.contacts)
    (fresh : ∀ m, new = some m → m.Settled (r.size d) r.contacts) : r'.Settled := by
  have resting : r'.Resting := by
    rw [Resting, contacts, show r'.size = r.size from congrArg Mesh.size mesh]
    exact ModelStore.Resting.replaced settled.resting replaced fun m new => (fresh m new).resting
  have symbolic : r'.models.Symbolic :=
    settled.symbolic.replaced replaced.models fun m calculator new => (fresh m new).expressed calculator
  exact resting.settled symbolic

theorem write (settled : r.Settled) {data : Field α} (fits : data.size = r.size d) :
    { r with models := r.models.write d name data }.Settled :=
  Resting.settled (ModelStore.Resting.write settled.resting fits)
    (settled.symbolic.write data)

theorem declareModel (settled : r.Settled) (functions : Registry α) (e : Expr β)
    {contact : Option String}
    (attached : ∀ name, contact = some name → r.contacts.contains name = true) :
    { r with models := r.models.declare d name (.ofExpr functions e) contact }.Settled :=
  Resting.settled (ModelStore.Resting.declare settled.resting _ attached)
    (settled.symbolic.declare ⟨functions, e, rfl⟩ contact)

theorem markOld (settled : r.Settled) : { r with models := r.models.markOld name }.Settled :=
  Resting.settled (ModelStore.Resting.markOld settled.resting name)
    (settled.symbolic.of_uncached_eq ModelStore.uncached_markOld)

theorem setParameter (settled : r.Settled) (value : β) : (r.setParameter name value).Settled :=
  (settled.resting.setParameter value).settled settled.markOld.symbolic

theorem setDisplay (settled : r.Settled) {display : DisplayType} :
    (r.setDisplay d name display).Settled :=
  Resting.settled (ModelStore.Resting.setDisplay settled.resting d name display)
    (settled.symbolic.setDisplay d name display)

theorem addContact (settled : r.Settled) (contact : Contact) : (r.addContact contact).Settled :=
  (settled.resting.addContact contact).settled settled.symbolic

theorem of_alike (settled : r.Settled) (alike : Alike r r') : r'.Settled :=
  (settled.resting.of_alike alike).settled (alike.models ▸ settled.symbolic)

/-! ### Calls -/

theorem consulted (settled : r.Settled) (consulted : Consulted r r') : r'.Settled := by
  rcases consulted with rfl | ⟨d, name, rfl⟩
  · exact settled
  · exact settled.read d name

theorem effect (settled : r.Settled) {change : Change β α} (effect : change.Effect r r') :
    r'.Settled := by
  cases effect with
  | none => exact settled
  | write d name data _ fits => exact settled.write fits
  | declare d name functions e contact _ _ attached =>
    exact settled.declareModel functions e attached
  | remove d name present =>
    exact settled.replaced (ModelStore.replaced_remove settled.mirrored present) rfl rfl (by simp)
  | display d name display => exact settled.setDisplay
  | markOld name => exact settled.markOld
  | parameter name value => exact settled.setParameter value
  | contact contact _ => exact settled.addContact contact

theorem apply (settled : r.Settled) (change : Change β α) : (change.apply r).Settled := by
  obtain ⟨r₀, r₁, consulted, effect, alike⟩ := change.apply_cases r
  exact ((settled.consulted consulted).effect effect).of_alike alike

theorem run (settled : r.Settled) (changes : List (Change β α)) : (r.run changes).Settled := by
  induction changes generalizing r with
  | nil => exact settled
  | cons change rest ih => exact ih (settled.apply change)

theorem create (instanceId : Nat) (device name : String) (mesh : Mesh β) (chunking : Chunking) :
    (Region.create instanceId device name mesh chunking : Region β α).Settled := by
  refine create_induction ⟨fun d name m found => ?_, Dependencies.mirrored_empty⟩
    fun r a data settled _ fits => settled.write fits
  cases found

end Settled

/-! ## Reads of settled regions -/

def visitsOf (r : Region β α) (d : Domain) (name : String) : List (Visit β α) :=
  visits reportCycle r.models.models.size d name r

/-- A read terminates and respects the states of all models. -/
structure ReadsWell (r : Region β α) (d : Domain) (name : String) : Prop where
  /-- The nesting is bounded by the number of models, whatever lies beyond the bound. -/
  terminates : ∀ limit depth, r.models.models.size ≤ depth →
    readWithin limit depth d name r = r.read d name
  settled : (r.read d name).2.Settled
  leaves : (r.read d name).2.Leaves d name (r.read d name).1
  /-- If a model on the stack is read again, the read fails with the first such model. -/
  cyclic : ∀ v ∈ r.visitsOf d name, v.Reenters →
    ∃ first, (r.visitsOf d name).find? (·.Reenters) = some first ∧
      (r.read d name).1 = .error (.cyclicDependency first.name)
  /-- All models on the stack at that moment are stale and without a value in the end. -/
  unwound : ∀ v ∈ r.visitsOf d name, v.Reenters → ∀ d' name', v.region.OnStack d' name' →
    ∃ m, (r.read d name).2.models.get? d' name' = some m ∧ m.state = .stale ∧ m.value = none

theorem Settled.readsWell (settled : r.Settled) (d : Domain) (name : String) :
    r.ReadsWell d name where
  terminates limit depth enough :=
    readWithin_eq (Nat.le_trans r.waiting_le_size enough) r.waiting_le_size
  settled := settled.read d name
  leaves := settled.underway.ended r.waiting_le_size (settled.idle d name)
  cyclic v member again := by
    have reported : cycleOf (r.read d name).1 = ((r.visitsOf d name).find? (·.Reenters)).map (·.name) :=
      settled.underway.cycleOf_readWithin settled.wellDeclared r.waiting_le_size d name
    cases found : (r.visitsOf d name).find? (·.Reenters) with
    | none => exact absurd again (by simpa using List.find?_eq_none.mp found v member)
    | some first =>
      rw [found] at reported
      exact ⟨first, rfl, cycleOf_eq_some_iff.mp reported⟩
  unwound v member again d' name' onStack :=
    settled.underway.unwound settled.wellDeclared r.waiting_le_size settled.idle member again onStack

/-- After any history a region is settled, every model is read well, and a name is found by one such
read at most. -/
theorem settled_and_readsWell_after_run (instanceId : Nat) (device name : String) (mesh : Mesh β)
    (chunking : Chunking) (changes : List (Change β α)) :
    let r := (create instanceId device name mesh chunking : Region β α).run changes
    r.Settled ∧ (∀ d name, r.ReadsWell d name) ∧
      ∀ name, match r.resolve? name with
        | none => r.find name = (.ok none, r)
        | some found => r.find name =
            ((r.read found.source.1 found.source.2).1.map fun data => some (found.answer data),
              (r.read found.source.1 found.source.2).2) := by
  intro r
  have settled : r.Settled := (Settled.create instanceId device name mesh chunking).run changes
  refine ⟨settled, settled.readsWell, fun name => ?_⟩
  split
  next unresolved => exact find_of_unresolved unresolved
  next found resolved => exact find_of_resolved resolved

end Region

end FiniteVolume
