import FiniteVolume.Numeric.Instances
import FiniteVolume.Proofs.Model.History
import FiniteVolume.Proofs.Model.Resolution

/-!
What the evaluation of an expression touches.

An evaluation touches the parameters that it asks for and the models that answer its lookups. Their
names are dependencies of the expression, but for one way of resolving a name: the corner `m@enK`
that is read from the edge model `m@nK` makes `m@enK` and `m` dependencies only. Writing a dependency
outdates the models that are registered under it.
-/
namespace FiniteVolume

variable {β α : Type} [BaseScalar β] [Scalar α] [Precision β α]

/-- The expression refers to the name or to a part of it. -/
def Expr.RefersTo (e : Expr β) (x : String) : Prop :=
  ∃ leaf ∈ e.leaves, leaf.name = x ∨ ∃ s, Suffix.split? leaf.name = some (x, s)

namespace Region

variable {r r' : Region β α} {d : Domain} {n x : String} {m m' : Model β α}

/-! ## Touched names -/

/-- The questions of a query to a region that reads models by `read`, each with the region as it is
when the question is asked. -/
def asked {ρ : Type} (read : Domain → String → RegionRead β α (Field α)) (q : Query β α ρ)
    (r : Region β α) : List (Question × Region β α) :=
  q.log (fun name => lookupWith read name) parameter? r

/-- The question is answered from the parameter or the model of the given name. -/
def Touches (r : Region β α) (x : String) : Question → Prop
  | .parameter name => name = x
  | .model name => ∃ found, r.resolve? name = some found ∧ found.source.2 = x

section

variable {functions : Registry α} {e : Expr β} {expected : Option Domain}
  {read : Domain → String → RegionRead β α (Field α)} {question : Question} {s : Region β α}

theorem leaf_of_asked
    (asked : (question, s) ∈ r.asked read (e.evaluate r.surroundings functions expected)) :
    question ∈ e.leaves :=
  (e.meets_evaluate r.surroundings functions expected).log _ asked

/-- What an evaluation touches is a dependency, or an edge model read in place of a corner. -/
theorem mem_dependencies_or_readsEdgeEnd
    (asked : (question, s) ∈ r.asked read (e.evaluate r.surroundings functions expected))
    (touches : s.Touches x question) :
    x ∈ e.dependencies ∨ ∃ y found, question = .model y ∧ s.resolve? y = some found ∧
      found.source.2 = x ∧ ReadsEdgeEnd y found.source := by
  have leaf := leaf_of_asked asked
  cases question with
  | parameter name => exact .inl (Expr.mem_dependencies.mpr ⟨_, leaf, .inl touches⟩)
  | model y =>
    obtain ⟨found, resolved, rfl⟩ := touches
    rcases (source_of_resolve? resolved).2 with own | ⟨suffix, split, -⟩ | ends
    · exact .inl (Expr.mem_dependencies.mpr ⟨_, leaf, .inl own.symm⟩)
    · exact .inl (Expr.mem_dependencies.mpr ⟨_, leaf, .inr ⟨suffix, split⟩⟩)
    · exact .inr ⟨y, found, rfl, resolved, rfl, ends⟩

end

/-! ## Writes -/

inductive Wrote (r : Region β α) (x : String) : Region β α → Prop
  | uniform (d : Domain) (value : α) : Wrote r x (r.setUniform d x value)
  | data (d : Domain) (data : Field α) {r' : Region β α} (wrote : r.setData d x data = .ok r') :
    Wrote r x r'
  | parameter (value : β) : Wrote r x (r.setParameter x value)

omit [BaseScalar β] [Scalar α] [Precision β α] in
theorem Wrote.models (wrote : r.Wrote x r') :
    (∃ d data, r'.models = r.models.write d x data) ∨ r'.models = r.models.markOld x := by
  cases wrote with
  | uniform d value => exact .inl ⟨d, _, rfl⟩
  | data d data wrote => exact .inl ⟨d, data, (alike_of_setData wrote).2.models⟩
  | parameter value => exact .inr rfl

omit [BaseScalar β] [Scalar α] [Precision β α] in
/-- A computed model registered under a name is not fresh after a write of that name, unless it has
that name itself. -/
theorem Wrote.eq_of_fresh (wrote : r.Wrote x r') (mirrored : r.models.dependencies.Mirrored)
    (found : r.models.get? d n = some m) (computed : m.isComputed = true)
    (registered : n ∈ r.models.dependencies.dependentsOf x)
    (found' : r'.models.get? d n = some m') (fresh : m'.state = .fresh) : n = x := by
  rcases wrote.models with ⟨d', data, write⟩ | marked
  · by_cases target : (d, n) = (d', x)
    · exact (Prod.mk.inj target).2
    · rw [write, ModelStore.get?_write_of_registered mirrored found registered target] at found'
      -- The write drops what the written name itself is registered under, hence the exception.
      by_contra other
      rw [if_neg other] at found'
      cases found'
      exact Model.state_outdate_ne_fresh computed fresh
  · rw [marked, ModelStore.get?_markOld, found] at found'
    cases found'
    have downstream := Dependencies.mem_wave_of_dependent registered
    exact absurd (.inr downstream) (Model.not_of_outdateIf_fresh computed fresh)

/-! ## Dependencies -/

/-- The names that an evaluation touches are dependencies of the expression exactly when it refers to
every edge model that is read in place of a corner. After any history, writing a dependency outdates
every model of the expression that is registered under it and has another name. -/
theorem touched_mem_dependencies_iff (functions : Registry α) (e : Expr β)
    (expected : Option Domain) (read : Domain → String → RegionRead β α (Field α))
    (r : Region β α) (instanceId : Nat) (device name : String) (mesh : Mesh β)
    (chunking : Chunking) (changes : List (Change β α)) :
    let log := r.asked read (e.evaluate r.surroundings functions expected)
    let reached : Region β α := (create instanceId device name mesh chunking).run changes
    ((∀ question s, (question, s) ∈ log → ∀ x, s.Touches x question → x ∈ e.dependencies) ↔
      ∀ y s found, (.model y, s) ∈ log → s.resolve? y = some found →
        ReadsEdgeEnd y found.source → e.RefersTo found.source.2) ∧
    ∀ d n m, reached.models.get? d n = some m → m.source = .computed (.ofExpr functions e) →
      ∀ x ∈ e.dependencies, n ∈ reached.models.dependencies.dependentsOf x →
        ∀ written, reached.Wrote x written →
          ∀ m', written.models.get? d n = some m' → m'.state = .fresh → n = x := by
  intro log reached
  refine ⟨⟨?_, ?_⟩, ?_⟩
  · intro declared y s found asked resolved _
    exact Expr.mem_dependencies.mp (declared _ s asked _ ⟨found, resolved, rfl⟩)
  · intro referred question s asked x touches
    rcases mem_dependencies_or_readsEdgeEnd asked touches with
      declared | ⟨y, found, rfl, resolved, rfl, ends⟩
    · exact declared
    · exact Expr.mem_dependencies.mpr (referred y s found asked resolved ends)
  · intro d n m found computed x _ registered written wrote m' found' fresh
    have settled : reached.Settled := (Settled.create instanceId device name mesh chunking).run changes
    exact wrote.eq_of_fresh settled.mirrored found (Model.isComputed_iff.mpr ⟨_, computed⟩) registered
      found' fresh

/-- A fresh model that reads a node model at an end of edges, outdated by a write of that model. -/
theorem outdated_after_write_of_base :
    let start : Region Float Float :=
      create 0 "device" "region" ⟨.segment, #[⟨0, 0, 0⟩, ⟨1, 0, 0⟩], #[⟨0, 1⟩], #[]⟩ {}
    let declarations : List (Change Float Float) :=
      [.setUniform .node "v" 1, .declare .edge "m" ∅ (.model "v@n0")]
    let r := start.run (declarations ++ [.read .edge "m"])
    r.models.isFresh .edge "m" = true ∧
      ∀ m, (r.setUniform .node "v" 2).models.get? .edge "m" = some m → m.state ≠ .fresh := by
  intro start declarations r
  refine ⟨by decide +kernel, fun m' found' fresh => ?_⟩
  have present : ∃ m, (start.run declarations).models.get? .edge "m" = some m ∧
      m.source = .computed (.ofExpr ∅ (.model "v@n0")) :=
    ⟨_, (ModelStore.get?_declare _ none).trans (if_pos rfl), rfl⟩
  have balanced : Balanced (start.run declarations) ((start.run declarations).read .edge "m").2 :=
    readWithin_balanced (waiting_le_size _)
  obtain ⟨declared, before, computed⟩ := present
  obtain ⟨m, found, same⟩ := get?_of_uncached_eq balanced.declared before
  have source := (Model.source_of_uncached same).trans computed
  have registered : "m" ∈ r.models.dependencies.dependentsOf "v" := by decide +kernel
  have wrote : r.Wrote "v" (r.setUniform .node "v" 2) := .uniform .node 2
  have outdates := (touched_mem_dependencies_iff (α := Float) ∅ (.model "v@n0") none read start
    0 "device" "region" start.mesh {} (declarations ++ [.read .edge "m"])).2
  have named := outdates .edge "m" m found source "v" (by decide) registered _ wrote m' found' fresh
  exact absurd named (by decide)

/-- A corner of element edges that is read from an edge model on which nothing depends: a write of
that model leaves the outdated values fresh. -/
theorem fresh_after_write_of_corner_source :
    let start : Region Float Float := create 0 "device" "region" ⟨.triangle,
      #[⟨0, 0, 0⟩, ⟨1, 0, 0⟩, ⟨0, 1, 0⟩], #[⟨1, 2⟩, ⟨0, 2⟩, ⟨0, 1⟩], #[⟨[0, 1, 2], [0, 1, 2]⟩]⟩ {}
    let e : Expr Float := .model "m@en0"
    let r := start.run [.setUniform .edge "m@n0" 1, .declare .triangleEdge "t" ∅ e,
      .read .triangleEdge "t"]
    (¬∀ question s, (question, s) ∈ r.asked read (e.evaluate r.surroundings ∅ none) →
      ∀ x, s.Touches x question → x ∈ e.dependencies) ∧
      r.models.isFresh .triangleEdge "t" = true ∧
      (r.setUniform .edge "m@n0" 2).models.isFresh .triangleEdge "t" = true := by
  intro start e r
  refine ⟨fun declared => ?_, by decide +kernel, by decide +kernel⟩
  have source : (r.resolve? "m@en0").map (·.source.2) = some "m@n0" := by decide +kernel
  have asked : (.model "m@en0", r) ∈ r.asked read (e.evaluate r.surroundings ∅ none) :=
    List.mem_cons_self
  have member := declared _ r asked "m@n0" (Option.map_eq_some_iff.mp source)
  revert member
  decide

end Region

end FiniteVolume
