import FiniteVolume.Proofs.Junction.Reading

/-!
Interfaces whose fresh models are current.

In a coherent interface every fresh model that is not shadowed has the values that recomputation gives
against regions that answer in a given way (`Junction.Coherent`). Reads and changes of the interface
keep it coherent (`Edit.keeps`), and when the regions come to answer in another way it is coherent with
them again as soon as they are noticed (`Junction.Coherent.refresh`).
-/
namespace FiniteVolume

variable {β α : Type}

/-! ## Marking several names -/

theorem Model.outdateIf_congr {p q : Prop} [Decidable p] [Decidable q] (same : p ↔ q)
    (m : Model β α) : m.outdateIf p = m.outdateIf q := by
  unfold outdateIf
  by_cases holds : p
  · rw [if_pos holds, if_pos (same.mp holds)]
  · rw [if_neg holds, if_neg (mt same.mpr holds)]

namespace ModelStore

/-- Make names and everything downstream of them stale. -/
def markAll (s : ModelStore β α) (names : List String) : ModelStore β α := names.foldl (·.markOld ·) s

variable {s : ModelStore β α} {d : Domain} {name : String} {names : List String}

def Reached (s : ModelStore β α) (names : List String) (name : String) : Prop :=
  ∃ x ∈ names, name = x ∨ name ∈ s.dependencies.wave x

instance (s : ModelStore β α) (names : List String) : DecidablePred (s.Reached names) := fun _ =>
  inferInstanceAs (Decidable (∃ _ ∈ _, _ ∨ _))

theorem Reached.next {x : String} (reached : s.Reached names x)
    (dependent : name ∈ s.dependencies.dependentsOf x) : s.Reached names name := by
  obtain ⟨y, member, rfl | below⟩ := reached
  · exact ⟨_, member, .inr (Dependencies.mem_wave_of_dependent dependent)⟩
  · exact ⟨y, member, .inr (Dependencies.mem_wave_of_mem_wave below dependent)⟩

@[simp] theorem dependencies_markAll : (s.markAll names).dependencies = s.dependencies := by
  induction names generalizing s with
  | nil => rfl
  | cons x rest ih => exact ih

theorem get?_markAll : (s.markAll names).get? d name =
    (s.get? d name).map (·.outdateIf (s.Reached names name)) := by
  induction names generalizing s with
  | nil =>
    have none : ∀ m : Model β α, m.outdateIf (s.Reached [] name) = m := fun m =>
      if_neg fun ⟨_, member, _⟩ => absurd member List.not_mem_nil
    simp only [none, Option.map_id']
    rfl
  | cons x rest ih =>
    rw [markAll, List.foldl_cons]
    refine (ih (s := s.markOld x)).trans ?_
    rw [get?_markOld, Option.map_map]
    congr 1
    funext m
    rw [Function.comp_apply, Model.outdateIf_outdateIf]
    refine Model.outdateIf_congr ?_ m
    simp only [Reached, dependencies_markOld, List.mem_cons, exists_eq_or_imp]

theorem mem_referenced {x : String} (dependent : name ∈ s.dependencies.dependentsOf x) :
    x ∈ s.dependencies.referenced := by
  rw [Dependencies.referenced, ← Table.contains_iff, Table.contains]
  unfold Dependencies.dependentsOf Dependencies.setAt at dependent
  cases found : s.dependencies.dependents.get? x with
  | none => rw [found] at dependent; exact absurd dependent List.not_mem_nil
  | some names => rfl

end ModelStore

namespace Junction

variable [BaseScalar β] [Scalar α] [Precision β α] {j j' : Junction β α} {o o' : Outside β α}
  {name x : String} {m : Model β α}

/-- Nothing is being computed, computed models are registered under all that they depend on, and the
fresh models that are not shadowed have the values that recomputation gives when the regions answer so. -/
structure Coherent (o : Outside β α) (j : Junction β α) : Prop where
  node : ∀ {d name m}, j.models.get? d name = some m → d = .node
  models : ∀ {name m}, j.models.get? .node name = some m → m.Settled j.size ∅
  mirrored : j.models.dependencies.Mirrored
  registered : ∀ {name m calculator}, j.models.get? .node name = some m →
    m.source = .computed calculator →
      ∀ x ∈ calculator.dependencies, name ∈ j.models.dependencies.dependentsOf x
  current : ∀ {name m}, j.models.get? .node name = some m → m.state = .fresh →
    j.Unshadowed name → ∃ data, m.value = some data ∧ j.Yields o name (.ok data)

namespace Coherent

/-- What a model reads has its name among the dependents. -/
theorem dependent (coherent : Coherent o j) {functions : Registry α} {e : Expr β}
    (computes : j.Computes name (.ofExpr functions e)) {leaf : Question} (member : leaf ∈ e.leaves) :
    name ∈ j.models.dependencies.dependentsOf leaf.name := by
  obtain ⟨m, found, computed⟩ := computes
  exact coherent.registered found computed _ (Expr.mem_dependencies.mpr ⟨leaf, member, .inl rfl⟩)

theorem yields_of_written {size : Nat} (found : j.models.get? .node name = some m)
    (settled : m.Settled size ∅) (written : m.source = .written) :
    ∃ data, m.value = some data ∧ j.Yields o name (.ok data) := by
  obtain ⟨data, value, -⟩ := settled.sized (settled.written written)
  refine ⟨data, value, 0, ?_⟩
  rw [valueWithin_of_written found written, value]
  rfl

end Coherent

/-! ## Edits -/

structure Introduced (j' : Junction β α) (d : Domain) (name : String) (m' : Model β α) : Prop where
  node : d = .node
  settled : m'.Settled j'.size ∅
  computed : ∀ calculator, m'.source = .computed calculator → m'.state ≠ .fresh ∧
    ∀ x ∈ calculator.dependencies, name ∈ j'.models.dependencies.dependentsOf x

/-- The second interface results from the first by a change of the given names, which include all that
depend on them, and of what the regions answer. Models of other names read nothing of which the regions
give a new account. -/
structure Edit (o o' : Outside β α) (j j' : Junction β α) (changed : String → Prop)
    [DecidablePred changed] : Prop where
  geometry : j'.geometry = j.geometry
  chunking : j'.chunking = j.chunking
  mirrored : j'.models.dependencies.Mirrored
  closed : ∀ {x name}, changed x → name ∈ j'.models.dependencies.dependentsOf x → changed name
  same : ∀ {name}, ¬changed name → j'.models.get? .node name = j.models.get? .node name
  models : ∀ {d name m'}, j'.models.get? d name = some m' →
    (∃ m, j.models.get? d name = some m ∧ m' = m.outdateIf (changed name) ∧
      ∀ x, name ∈ j.models.dependencies.dependentsOf x →
        name ∈ j'.models.dependencies.dependentsOf x) ∨
    (changed name ∧ Introduced j' d name m')
  told : ∀ {name functions e}, ¬changed name → j.Computes name (.ofExpr functions e) →
    ∀ leaf ∈ e.leaves, j.models.contains .node leaf.name = true ∨
      (o'.answer leaf.name = o.answer leaf.name ∧ o'.parameter leaf.name = o.parameter leaf.name)

namespace Edit

section

variable {changed : String → Prop} [DecidablePred changed] (edit : Edit o o' j j' changed)
  (coherent : Coherent o j)

include edit

theorem size_eq : j'.size = j.size := congrArg Interface.size edit.geometry

theorem contains_eq (unchanged : ¬changed name) :
    j'.models.contains .node name = j.models.contains .node name :=
  congrArg Option.isSome (edit.same unchanged)

theorem computes_iff (unchanged : ¬changed name) {calculator : Calculator β α} :
    j'.Computes name calculator ↔ j.Computes name calculator := by
  rw [Computes, Computes, edit.same unchanged]

include coherent

theorem unchanged_leaf (unchanged : ¬changed name) {functions : Registry α} {e : Expr β}
    (computes : j.Computes name (.ofExpr functions e)) {leaf : Question} (member : leaf ∈ e.leaves) :
    ¬changed leaf.name := by
  intro change
  obtain ⟨m, found, computed⟩ := id computes
  rcases edit.models ((edit.same unchanged).trans found) with ⟨m₀, -, -, registered⟩ | ⟨changed', -⟩
  · exact unchanged (edit.closed change (registered _ (coherent.dependent computes member)))
  · exact unchanged changed'

theorem unshadowed (unchanged : ¬changed name) (unshadowed : j'.Unshadowed name) :
    j.Unshadowed name :=
  unshadowed.transfer (fun unchanged => (edit.computes_iff unchanged).mpr)
    (fun unchanged computes member => edit.unchanged_leaf coherent unchanged computes member)
    (fun unchanged absent => (edit.contains_eq unchanged).symm.trans absent) unchanged

/-- The unchanged models that are not shadowed are told the same. -/
theorem agree : Agree j j' o o' fun name => ¬changed name ∧ j.Unshadowed name where
  size := edit.size_eq
  chunking := edit.chunking
  models name kept := by rw [edit.same kept.1]
  leaves {name m calculator} kept found computed := by
    have computes : j.Computes name calculator := ⟨m, found, computed⟩
    obtain ⟨functions, e, rfl, models, free⟩ := clear_unshadowed kept.2 computes
    refine ⟨functions, e, rfl, fun leaf member => ?_⟩
    have told := edit.told kept.1 computes leaf member
    cases leaf with
    | model y =>
      exact ⟨⟨edit.unchanged_leaf coherent kept.1 computes member, models y member⟩,
        told.imp_right And.left⟩
    | parameter p =>
      have absent : ¬j.models.contains .node p = true := by simp [free p member]
      exact (told.resolve_left absent).2

/-- An edit keeps fresh models current: a computed one depends on nothing changed. -/
theorem current {m' : Model β α} (found' : j'.models.get? .node name = some m')
    (fresh : m'.state = .fresh) (settled : m'.Settled j'.size ∅) (unshadowed : j'.Unshadowed name) :
    ∃ data, m'.value = some data ∧ j'.Yields o' name (.ok data) := by
  cases kind : m'.source with
  | written => exact Coherent.yields_of_written found' settled kind
  | computed calculator =>
    rcases edit.models found' with ⟨m, found, rfl, -⟩ | ⟨-, introduced⟩
    · have unchanged : ¬changed name := Model.not_of_outdateIf_fresh
        (Model.isComputed_iff.mpr ⟨calculator, by rwa [Model.source_outdateIf] at kind⟩) fresh
      have unshadowed := edit.unshadowed coherent unchanged unshadowed
      rw [Model.outdateIf, if_neg unchanged] at fresh ⊢
      obtain ⟨data, value, i, computed⟩ := coherent.current found fresh unshadowed
      refine ⟨data, value, i, ?_⟩
      rw [(edit.agree coherent).valueWithin_eq i ⟨unchanged, unshadowed⟩, computed]
    · exact absurd fresh (introduced.computed calculator kind).1

theorem keeps : Coherent o' j' := by
  have settled : ∀ {name m'}, j'.models.get? .node name = some m' → m'.Settled j'.size ∅ := by
    intro name m' found'
    rcases edit.models found' with ⟨m, found, rfl, -⟩ | ⟨-, introduced⟩
    · rw [edit.size_eq]
      exact (coherent.models found).outdateIf _
    · exact introduced.settled
  refine ⟨fun found' => ?_, settled, edit.mirrored, fun {name m' calculator} found' kind x member => ?_,
    fun found' fresh => edit.current coherent found' fresh (settled found')⟩
  · rcases edit.models found' with ⟨m, found, -⟩ | ⟨-, introduced⟩
    · exact coherent.node found
    · exact introduced.node
  · rcases edit.models found' with ⟨m, found, rfl, registered⟩ | ⟨-, introduced⟩
    · rw [Model.source_outdateIf] at kind
      exact registered x (coherent.registered found kind x member)
    · exact (introduced.computed calculator kind).2 x member

end

theorem of_replaced {new : Option (Model β α)} (coherent : Coherent o j)
    (replaced : ModelStore.Replaced j.models j'.models .node x new)
    (geometry : j'.geometry = j.geometry) (chunking : j'.chunking = j.chunking)
    (fresh : ∀ m, new = some m → m.Settled j.size ∅ ∧
      ∀ calculator, m.source = .computed calculator → m.state ≠ .fresh) :
    Edit o o j j' (j'.models.Reached [x]) where
  geometry := geometry
  chunking := chunking
  mirrored := replaced.mirrored
  closed := ModelStore.Reached.next
  same {name} unchanged := by
    have apart : (Domain.node, name) ≠ (Domain.node, x) := fun same =>
      unchanged ⟨x, List.mem_singleton_self x, .inl (Prod.mk.inj same).2⟩
    have outside : name ∉ j'.models.dependencies.wave x := fun below =>
      unchanged ⟨x, List.mem_singleton_self x, .inr below⟩
    have kept : ∀ m : Model β α, m.outdateIf (name ∈ j'.models.dependencies.wave x) = m :=
      fun m => if_neg outside
    rw [replaced.models, if_neg apart]
    simp only [kept, Option.map_id']
  models {d name m'} found' := by
    rw [replaced.models] at found'
    split at found'
    next same =>
      cases same
      obtain ⟨settled, stale⟩ := fresh m' found'
      refine .inr ⟨⟨x, List.mem_singleton_self x, .inl rfl⟩, rfl, ?_, fun calculator computed =>
        ⟨stale calculator computed, replaced.registered m' calculator found' computed⟩⟩
      rwa [size, geometry]
    next other =>
      obtain ⟨m, found, rfl⟩ := Option.map_eq_some_iff.mp found'
      have apart : name ≠ x := fun same => other (by rw [coherent.node found, same])
      refine .inl ⟨m, found, Model.outdateIf_congr ?_ m, fun y => replaced.kept name y apart⟩
      simp only [ModelStore.Reached, List.mem_singleton, exists_eq_left, apart, false_or]
  told _ _ _ _ := .inr ⟨rfl, rfl⟩

theorem of_markAll {names : List String} (coherent : Coherent o j)
    (models : j'.models = j.models.markAll names) (geometry : j'.geometry = j.geometry)
    (chunking : j'.chunking = j.chunking)
    (told : ∀ {name functions e}, ¬j.models.Reached names name →
      j.Computes name (.ofExpr functions e) → ∀ leaf ∈ e.leaves,
      j.models.contains .node leaf.name = true ∨
        (o'.answer leaf.name = o.answer leaf.name ∧ o'.parameter leaf.name = o.parameter leaf.name)) :
    Edit o o' j j' (j.models.Reached names) where
  geometry := geometry
  chunking := chunking
  mirrored := by
    rw [models, ModelStore.dependencies_markAll]
    exact coherent.mirrored
  closed reached dependent := by
    rw [models, ModelStore.dependencies_markAll] at dependent
    exact reached.next dependent
  same {name} unchanged := by
    have kept : ∀ m : Model β α, m.outdateIf (j.models.Reached names name) = m :=
      fun m => if_neg unchanged
    rw [models, ModelStore.get?_markAll]
    simp only [kept, Option.map_id']
  models found' := by
    rw [models, ModelStore.get?_markAll] at found'
    obtain ⟨m, found, rfl⟩ := Option.map_eq_some_iff.mp found'
    refine .inl ⟨m, found, rfl, ?_⟩
    rw [models, ModelStore.dependencies_markAll]
    exact fun _ => id
  told := told

end Edit

/-! ## Changes of the interface -/

namespace Coherent

/-- Of what is not modelled only the declarations matter. -/
theorem congr (coherent : Coherent o j) (same : j'.uncached = j.uncached)
    (models : j'.models = j.models) : Coherent o j' where
  node := by
    rw [models]
    exact coherent.node
  models := by
    rw [models, show j'.size = j.size from (congrArg Junction.size same :)]
    exact coherent.models
  mirrored := models ▸ coherent.mirrored
  registered := by
    rw [models]
    exact coherent.registered
  current found fresh unshadowed := by
    rw [models] at found
    obtain ⟨data, value, yields⟩ := coherent.current found fresh
      (unshadowed.of_uncached_eq same.symm)
    exact ⟨data, value, (yields_of_uncached_eq same).mpr yields⟩

theorem write (coherent : Coherent o j) {data : Field α} (fits : data.size = j.size) :
    Coherent o { j with models := j.models.write .node name data } := by
  have edit : Edit o o j { j with models := j.models.write .node name data } _ :=
    .of_replaced coherent (ModelStore.replaced_write coherent.mirrored data) rfl rfl fun m new => by
      cases new
      exact ⟨.of_written fits, fun _ computed => by cases computed⟩
  exact edit.keeps coherent

theorem declare (coherent : Coherent o j) (functions : Registry α) (e : Expr β) :
    Coherent o (j.declare name (.ofExpr functions e)) := by
  have edit : Edit o o j (j.declare name (.ofExpr functions e)) _ :=
    .of_replaced coherent (ModelStore.replaced_declare coherent.mirrored _ none) rfl rfl fun m new => by
      cases new
      refine ⟨⟨by simp, by simp, by simp, fun _ computed => ?_, by simp⟩, by simp⟩
      cases computed
      exact ⟨functions, e, rfl⟩
  exact edit.keeps coherent

theorem removeModel (coherent : Coherent o j) : Coherent o (j.removeModel name) := by
  cases present : j.models.contains .node name with
  | false =>
    have unchanged : j.removeModel name = j := by
      rw [Junction.removeModel, ModelStore.remove_of_absent present]
    rwa [unchanged]
  | true =>
    have edit : Edit o o j (j.removeModel name) _ :=
      .of_replaced coherent (ModelStore.replaced_remove coherent.mirrored present) rfl rfl
        fun m none => by cases none
    exact edit.keeps coherent

theorem markOld (coherent : Coherent o j) : Coherent o (j.markOld name) := by
  have edit : Edit o o j (j.markOld name) (j.models.Reached [name]) :=
    .of_markAll coherent rfl rfl rfl fun _ _ _ _ => .inr ⟨rfl, rfl⟩
  exact edit.keeps coherent

/-- A model that reads anything but models of the interface is marked when changes are noticed. -/
theorem reached_of_external (coherent : Coherent o j) {functions : Registry α} {e : Expr β}
    (computes : j.Computes name (.ofExpr functions e)) {leaf : Question} (member : leaf ∈ e.leaves)
    (external : j.models.contains .node leaf.name = false) :
    j.models.Reached j.externalNames name := by
  have dependent := coherent.dependent computes member
  refine ⟨leaf.name, List.mem_filter.mpr ⟨ModelStore.mem_referenced dependent, ?_⟩,
    .inr (Dependencies.mem_wave_of_dependent dependent)⟩
  have unmodelled : j.models.domainOf? leaf.name = none := by
    rw [ModelStore.domainOf?, List.find?_eq_none]
    intro d _ present
    obtain ⟨m, found⟩ := ModelStore.contains_iff.mp present
    simp [coherent.node found, external] at present
  rw [unmodelled]
  rfl

/-- What the regions answer is noticed by marking what is read through them. -/
theorem refresh (coherent : Coherent o j) {now : Fingerprint × Fingerprint} (new : j.seen ≠ some now) :
    Coherent o' (j.refresh now) := by
  have edit : Edit o o' j (j.refresh now) (j.models.Reached j.externalNames) := by
    rw [Junction.refresh, if_neg new]
    refine .of_markAll coherent rfl rfl rfl fun unchanged computes leaf member => .inl ?_
    refine Decidable.byContradiction fun absent => unchanged ?_
    exact coherent.reached_of_external computes member (by simpa using absent)
  exact edit.keeps coherent

/-- A model is computed anew after a change of anything it reads but models of the interface. -/
theorem not_isFresh_refresh (coherent : Coherent o j) {now : Fingerprint × Fingerprint}
    (new : j.seen ≠ some now) {functions : Registry α} {e : Expr β}
    (computes : j.Computes name (.ofExpr functions e)) {leaf : Question} (member : leaf ∈ e.leaves)
    (external : j.models.contains .node leaf.name = false) :
    (j.refresh now).models.isFresh .node name = false := by
  have reached := coherent.reached_of_external computes member external
  obtain ⟨m, found, computed⟩ := computes
  have marked : (j.refresh now).models.get? .node name =
      some (m.outdateIf (j.models.Reached j.externalNames name)) := by
    rw [Junction.refresh, if_neg new]
    change (j.models.markAll j.externalNames).get? .node name = _
    rw [ModelStore.get?_markAll, found]
    rfl
  have stale : (m.outdateIf (j.models.Reached j.externalNames name)).state ≠ .fresh := fun fresh =>
    Model.not_of_outdateIf_fresh (Model.isComputed_iff.mpr ⟨_, computed⟩) fresh reached
  simpa [ModelStore.isFresh, ModelStore.state?, marked] using stale

theorem refresh_same (coherent : Coherent o j) (now : Fingerprint × Fingerprint) :
    Coherent o (j.refresh now) := by
  by_cases seen : j.seen = some now
  · rwa [Junction.refresh, if_pos seen]
  · exact coherent.refresh seen

/-- Nothing that could be outdated is left of an interface without what was computed. -/
theorem uncached (coherent : Coherent o j) : Coherent o' j.uncached where
  node found := by
    obtain ⟨m, present, -⟩ := Option.map_eq_some_iff.mp (ModelStore.get?_uncached.symm.trans found)
    exact coherent.node present
  models found := by
    obtain ⟨m, present, rfl⟩ := Option.map_eq_some_iff.mp (ModelStore.get?_uncached.symm.trans found)
    exact (coherent.models present).uncached
  mirrored := coherent.mirrored
  registered found computed := by
    obtain ⟨m, present, rfl⟩ := Option.map_eq_some_iff.mp (ModelStore.get?_uncached.symm.trans found)
    exact coherent.registered present (Model.source_uncached.symm.trans computed)
  current found fresh _ := by
    obtain ⟨m, present, rfl⟩ := Option.map_eq_some_iff.mp (ModelStore.get?_uncached.symm.trans found)
    cases source : m.source with
    | written =>
      exact yields_of_written found (coherent.models present).uncached
        (Model.source_uncached.trans source)
    | computed calculator => simp [Model.uncached, source] at fresh

end Coherent

end Junction

/-! ## Reads -/

namespace Coupled

variable [BaseScalar β] [Scalar α] [Precision β α] {c c' : Coupled β α} {j : Junction β α}
  {o : Outside β α} {name : String}

/-- A coherent interface is as it is in the course of a read, with nothing on the stack. -/
theorem underway_of_coherent (coherent : c.junction.Coherent o)
    (declared : c.junction.uncached = j.uncached) (outside : c.outside = o)
    (settled : ∀ side, (c.region side).Settled) :
    Underway j o (fun _ => False) c where
  declared := declared
  outside := outside
  settled := settled
  stacked found := (coherent.models found).idle
  written found := (coherent.models found).written
  current found fresh := by
    obtain ⟨data, value, size⟩ := (coherent.models found).sized fresh
    refine ⟨data, value, size.trans (congrArg Junction.size declared :), fun unshadowed => ?_⟩
    obtain ⟨data', value', yields⟩ := coherent.current found fresh
      (unshadowed.of_uncached_eq declared)
    cases value.symm.trans value'
    exact (Junction.yields_of_uncached_eq declared).mp yields

/-- Reads keep an interface coherent with what its regions answer. -/
theorem Underway.coherent (underway : Underway j o (fun _ => False) c) (coherent : j.Coherent o) :
    c.junction.Coherent o where
  node {d name m} found := by
    obtain ⟨m₀, found₀, -⟩ := ModelStore.get?_of_uncached_eq
      (congrArg Junction.models underway.declared.symm) found
    exact coherent.node found₀
  models {name m} found := by
    obtain ⟨m₀, found₀, same⟩ := ModelStore.get?_of_uncached_eq
      (congrArg Junction.models underway.declared.symm) found
    have before := coherent.models found₀
    refine ⟨fun computing => underway.stacked found computing, underway.written found,
      fun fresh => ?_, ?_, ?_⟩
    · obtain ⟨data, value, size, -⟩ := underway.current found fresh
      exact ⟨data, value, size.trans underway.size_eq.symm⟩
    · rw [← Model.source_of_uncached same]
      exact before.expressed
    · rw [← Model.contact_of_uncached same]
      exact before.attached
  mirrored := by
    rw [show c.junction.models.dependencies = j.models.dependencies from
      (congrArg (fun j => j.models.dependencies) underway.declared :)]
    exact coherent.mirrored
  registered {name m calculator} found computed := by
    obtain ⟨m₀, found₀, same⟩ := ModelStore.get?_of_uncached_eq
      (congrArg Junction.models underway.declared.symm) found
    rw [show c.junction.models.dependencies = j.models.dependencies from
      (congrArg (fun j => j.models.dependencies) underway.declared :)]
    exact coherent.registered found₀ ((Model.source_of_uncached same).trans computed)
  current found fresh unshadowed := by
    obtain ⟨data, value, -, yields⟩ := underway.current found fresh
    refine ⟨data, value, (Junction.yields_of_uncached_eq underway.declared).mpr (yields ?_)⟩
    exact unshadowed.of_uncached_eq underway.declared.symm

end Coupled

end FiniteVolume
