import FiniteVolume.Proofs.Junction.Reading
import FiniteVolume.Proofs.Junction.Resting
import FiniteVolume.Proofs.Model.Repetition

/-!
Reads of an interface that repeat.

What is fresh when the regions were noticed stays as it is, outdated or not, so a read returns what
recomputation gives with the fresh models taken as written (`Junction.frozen`). Two interfaces on the way
through reads of one interface then read alike (`Coupled.Abreast.read_eq`): what lies on or above a cycle
is cached by neither, and both compute it side by side.
-/
namespace FiniteVolume

variable {β α : Type}

/-! ## Fresh models taken as written -/

def Model.frozen (m : Model β α) : Model β α :=
  if m.state = .fresh then { m with source := .written } else m

def Junction.frozen (j : Junction β α) : Junction β α :=
  { j with models := { j.models with models := j.models.models.mapEntries fun _ m => m.frozen } }

namespace Junction

variable {j : Junction β α} {name : String}

theorem get?_frozen (j : Junction β α) (d : Domain) (name : String) :
    j.frozen.models.get? d name = (j.models.get? d name).map Model.frozen := Table.get?_mapEntries ..

theorem underlies_frozen (j : Junction β α) : j.frozen.Underlies j where
  geometry := rfl
  chunking := rfl
  contains := by
    funext name
    change (j.models.get? .node name).isSome = (j.frozen.models.get? .node name).isSome
    rw [get?_frozen, Option.isSome_map]
  declared found outdated :=
    ⟨_, by rw [get?_frozen, found, Option.map_some, Model.frozen, if_neg outdated], rfl, rfl⟩

theorem expressed_frozen [BaseScalar β] [Scalar α] [Precision β α] (symbolic : j.models.Symbolic) :
    j.frozen.Expressed fun _ => True := by
  rintro name calculator - ⟨m, found, computed⟩
  rw [get?_frozen] at found
  obtain ⟨m, found', rfl⟩ := Option.map_eq_some_iff.mp found
  unfold Model.frozen at computed
  split at computed
  · cases computed
  · obtain ⟨functions, e, same⟩ := symbolic _ _ _ _ found' computed
    exact ⟨functions, e, same, fun _ _ => trivial⟩

end Junction

namespace Coupled

variable [BaseScalar β] [Scalar α] [Precision β α] {c c' c₀ d d' : Coupled β α} {j : Junction β α}
  {o : Outside β α} {stack : String → Prop} {name : String} {m m' : Model β α}
  {calculator : Calculator β α} {k : Nat}

omit [BaseScalar β] [Precision β α] in
theorem readWithin_of_stale_fst (found : c.junction.models.get? .node name = some m)
    (stale : m.state = .stale) (computed : m.source = .computed calculator) :
    (readWithin k name c).1 = ModelStore.checked (c.targetOf name m) none
      ((calculator.calculate c.junction.surroundings (c.targetOf name m)).runState (lookupWithin k)
        parameter? (c.marked name m)).1.result := by
  obtain ⟨marked, about⟩ := marked_of_run found (kept_lookupWithin k)
    (q := calculator.calculate c.junction.surroundings (c.targetOf name m))
  rw [readWithin_of_stale found stale computed]
  exact congrArg Prod.fst (concluded_of_found marked about _)

omit [BaseScalar β] [Precision β α] in
/-- Names of which the interface has no model are answered alike where the regions read alike. -/
theorem lookupWith_congr_of_absent {read : String → CoupledRead β α (Field α)}
    (absent : c.junction.models.contains .node name = false)
    (absent' : c'.junction.models.contains .node name = false)
    (geometry : c'.junction.geometry = c.junction.geometry)
    (chunking : c'.junction.chunking = c.junction.chunking)
    (contains : ∀ side, (c'.region side).models.contains = (c.region side).models.contains)
    (reads : ∀ side base, ((c'.region side).read .node base).1 = ((c.region side).read .node base).1) :
    (lookupWith read name c').1 = (lookupWith read name c).1 := by
  unfold lookupWith
  change ((if c'.junction.models.contains .node name then _ else _ : CoupledRead β α _) c').1 =
    ((if c.junction.models.contains .node name then _ else _ : CoupledRead β α _) c).1
  rw [if_neg (by simp [absent']), if_neg (by simp [absent])]
  dsimp only
  rcases Suffix.split? name with _ | ⟨base, end_ | corner | side⟩
  case some.interfaceSide =>
    dsimp only
    have result : ∀ (c : Coupled β α) (view : Field α → Resolved α),
        ((onRegion side (Region.read .node base) >>= fun values => pure (some (view values)) :
          CoupledRead β α (Option (Resolved α))) c).1 =
            ((c.region side).read .node base).1.map fun values => some (view values) := by
      intro c view
      rcases ran : onRegion side (Region.read .node base) c with ⟨e | data, c₁⟩
      · rw [CoupledRead.bind_of_error ran, show ((c.region side).read .node base).1 = .error e from
          congrArg Prod.fst ran]
        rfl
      · rw [CoupledRead.bind_of_ok ran, show ((c.region side).read .node base).1 = .ok data from
          congrArg Prod.fst ran]
        rfl
    rw [contains, geometry, chunking]
    split
    · rw [result c' fun values => ⟨.node, _⟩, result c fun values => ⟨.node, _⟩, reads]
    · rfl
  all_goals rfl

/-! ## Two interfaces abreast -/

/-- Two interfaces in the course of the calculation of models on or above a cycle, those on the stack,
against regions on the way through reads of the same regions. -/
structure Abreast (j : Junction β α) (o : Outside β α) (c₀ : Coupled β α) (stack : String → Prop)
    (c c' : Coupled β α) : Prop where
  left : Course j o (fun _ => True) stack c
  right : Course j o (fun _ => True) stack c'
  regions : ∀ side, (c₀.region side).Ready ∧ Region.Reading (c₀.region side) (c.region side) ∧
    Region.Reading (c₀.region side) (c'.region side)
  marked : ∀ y, stack y → ∃ m m', c.junction.models.get? .node y = some m ∧ m.state = .computing ∧
    c'.junction.models.get? .node y = some m' ∧ m'.state = .computing
  undefined : ∀ y, stack y → ∀ i, j.valueWithin o i y = none

/-- A model that both compute, from the same calculation. -/
structure Pair (c c' : Coupled β α) (name : String) (m m' : Model β α) (calculator : Calculator β α) :
    Prop where
  found : c.junction.models.get? .node name = some m
  stale : m.state = .stale
  computed : m.source = .computed calculator
  found' : c'.junction.models.get? .node name = some m'
  stale' : m'.state = .stale
  computed' : m'.source = .computed calculator
  target : c'.targetOf name m' = c.targetOf name m

/-- On or above a cycle nothing is cached. -/
theorem Course.cases_of_undefined (course : Course j o (fun _ => True) stack c)
    (undefined : ∀ i, j.valueWithin o i name = none) :
    stack name ∨ ∃ m calculator, c.junction.models.get? .node name = some m ∧ m.state = .stale ∧
      m.source = .computed calculator := by
  rcases course.cases name with missing | ⟨m, data, found, fresh, -⟩ | ⟨m, found, computing⟩ | stale
  · have defined := Junction.valueWithin_of_missing (o := o) (i := 0) (course.missing_iff.mp missing)
    cases defined.symm.trans (undefined 0)
  · obtain ⟨data, -, -, yields⟩ := course.current found fresh
    obtain ⟨i, defined⟩ := yields trivial
    cases defined.symm.trans (undefined i)
  · exact .inl (course.stacked found computing)
  · exact .inr stale

namespace Abreast

variable (abreast : Abreast j o c₀ stack c c')

include abreast

theorem later (left : Course j o (fun _ => True) stack d) (right : Course j o (fun _ => True) stack d')
    (kept : Kept c d) (kept' : Kept c' d') : Abreast j o c₀ stack d d' where
  left := left
  right := right
  regions side := by
    obtain ⟨ready, reading, reading'⟩ := abreast.regions side
    exact ⟨ready, (kept.regions side).reading _ ready reading, (kept'.regions side).reading _ ready reading'⟩
  marked y onStack := by
    obtain ⟨m, m', found, computing, found', computing'⟩ := abreast.marked y onStack
    exact ⟨m, m', kept.models.held found (.inl (by simp [computing])), computing,
      kept'.models.held found' (.inl (by simp [computing'])), computing'⟩
  undefined := abreast.undefined

theorem after_lookup (k : Nat) (name : String) :
    Abreast j o c₀ stack (lookupWithin (k + 1) name c).2 (lookupWithin (k + 1) name c').2 :=
  abreast.later (abreast.left.lookup (abreast.left.read k name)).1
    (abreast.right.lookup (abreast.right.read k name)).1 (kept_lookupWithin (k + 1) name c)
    (kept_lookupWithin (k + 1) name c')

theorem lookup_eq (same : ∀ name, (readWithin k name c').1 = (readWithin k name c).1) (name : String) :
    (lookupWithin (k + 1) name c').1 = (lookupWithin (k + 1) name c).1 := by
  have contains : c'.junction.models.contains .node = c.junction.models.contains .node :=
    abreast.right.contains.trans abreast.left.contains.symm
  cases present : c.junction.models.contains .node name with
  | true =>
    rw [lookupWithin, lookupWith_of_contains present, lookupWith_of_contains (contains ▸ present)]
    exact congrArg (Except.map _) (same name)
  | false =>
    have underlies := abreast.left.underlies
    have underlies' := abreast.right.underlies
    refine lookupWith_congr_of_absent present (contains ▸ present)
      (underlies'.geometry.trans underlies.geometry.symm)
      (underlies'.chunking.trans underlies.chunking.symm) (fun side => ?_) fun side base => ?_
    all_goals obtain ⟨ready, reading, reading'⟩ := abreast.regions side
    · exact Region.contains_of_uncached_eq (reading'.underway.declared.trans reading.underway.declared.symm)
    · rw [reading'.read_eq ready, reading.read_eq ready]

section

variable (undefined : ∀ i, j.valueWithin o i name = none)

include undefined

theorem cases_of_undefined : stack name ∨ ∃ m m' calculator, Pair c c' name m m' calculator := by
  rcases abreast.left.cases_of_undefined undefined with onStack | ⟨m, calculator, found, stale, computed⟩
  · exact .inl onStack
  rcases abreast.right.cases_of_undefined undefined with
    onStack | ⟨m', calculator', found', stale', computed'⟩
  · exact .inl onStack
  obtain ⟨m₀, found₀, source, target⟩ := abreast.left.declared_model found (by simp [stale])
  obtain ⟨_, again, source', target'⟩ := abreast.right.declared_model found' (by simp [stale'])
  cases found₀.symm.trans again
  exact .inr ⟨m, m', calculator, found, stale, computed, found', stale',
    source'.symm.trans (source.trans computed), target'.symm.trans target⟩

theorem mark (pair : Pair c c' name m m' calculator) :
    Abreast j o c₀ (fun y => y = name ∨ stack y) (c.marked name m) (c'.marked name m') where
  left := abreast.left.mark pair.found pair.stale pair.computed
  right := abreast.right.mark pair.found' pair.stale' pair.computed'
  regions := abreast.regions
  marked y onStack := by
    by_cases same : y = name
    · rw [get?_marked pair.found, get?_marked pair.found', if_pos same, if_pos same]
      exact ⟨_, _, rfl, rfl, rfl, rfl⟩
    · rw [get?_marked pair.found, get?_marked pair.found', if_neg same, if_neg same]
      exact abreast.marked y (onStack.resolve_left same)
  undefined y onStack := by
    rcases onStack with rfl | below
    · exact undefined
    · exact abreast.undefined y below

end

/-- Both interfaces read alike, and what lies on or above a cycle they compute side by side. -/
theorem read_eq (enough : c.junction.models.waiting ≤ k) (enough' : c'.junction.models.waiting ≤ k)
    (name : String) : (readWithin k name c').1 = (readWithin k name c).1 := by
  induction k using Nat.strongRecOn generalizing c c' stack name with
  | _ k ih =>
    by_cases defined : ∃ i result, j.valueWithin o i name = some result
    · obtain ⟨i, result, value⟩ := defined
      have deeper : ∀ y, stack y → j.valueWithin o i y = none := fun y onStack =>
        abreast.undefined y onStack i
      have acyclic := abreast.left.acyclic_read trivial value deeper enough
      have acyclic' := abreast.right.acyclic_read trivial value deeper enough'
      exact ((abreast.right.read k name).2 trivial acyclic').unique
        ((abreast.left.read k name).2 trivial acyclic)
    have undefined : ∀ i, j.valueWithin o i name = none := fun i =>
      Option.eq_none_iff_forall_ne_some.mpr fun result value => defined ⟨i, result, value⟩
    rcases abreast.cases_of_undefined undefined with onStack | ⟨m, m', calculator, pair⟩
    · obtain ⟨m, m', found, computing, found', computing'⟩ := abreast.marked name onStack
      rw [readWithin_of_computing found computing, readWithin_of_computing found' computing']
    -- The same calculation starts in both, and by induction all its questions have the same answers.
    have fewer : (c.marked name m).junction.models.waiting < c.junction.models.waiting :=
      ModelStore.waiting_marked_lt pair.found pair.stale
    have fewer' : (c'.marked name m').junction.models.waiting < c'.junction.models.waiting :=
      ModelStore.waiting_marked_lt pair.found' pair.stale'
    obtain ⟨i, rfl⟩ : ∃ i, k = i + 1 := ⟨k - 1, by omega⟩
    have agree := Query.runState_agree
      (calculator.calculate c.junction.surroundings (c.targetOf name m)) (lookupWithin (i + 1)) parameter?
      (P := fun s t => Abreast j o c₀ (fun y => y = name ∨ stack y) s t ∧
        s.junction.models.waiting ≤ i ∧ t.junction.models.waiting ≤ i)
      ⟨abreast.mark undefined pair, by omega, by omega⟩
      (fun s t both => both.1.right.parameters.trans both.1.left.parameters.symm) ?_
    · rw [readWithin_of_stale_fst pair.found pair.stale pair.computed,
        readWithin_of_stale_fst pair.found' pair.stale' pair.computed', pair.target,
        abreast.right.surroundings_eq, ← abreast.left.surroundings_eq, agree.1]
    · rintro asked s t ⟨abreast, enough, enough'⟩
      refine ⟨abreast.lookup_eq (ih i (by omega) abreast enough enough') asked,
        abreast.after_lookup i asked, ?_, ?_⟩
      · exact Nat.le_trans (kept_lookupWithin (i + 1) asked s).models.waiting_le enough
      · exact Nat.le_trans (kept_lookupWithin (i + 1) asked t).models.waiting_le enough'

end Abreast

/-! ## Between two reads -/

/-- An interface at rest between settled regions, with models from expressions. -/
structure Ready (c : Coupled β α) : Prop where
  regions : ∀ side, (c.region side).Settled
  resting : c.junction.Resting
  symbolic : c.junction.models.Symbolic

/-- The second pair of interface and regions is what the first becomes by reads. -/
structure Reading (c₀ c : Coupled β α) : Prop where
  declared : c.junction.uncached = c₀.junction.uncached
  regions : ∀ side, Region.Reading (c₀.region side) (c.region side)
  course : Course c₀.refresh.junction.frozen c₀.outside (fun _ => True) (fun _ => False) c.refresh

theorem Ready.reading (ready : c.Ready) : Reading c c := by
  have rests : c.refresh.junction.Resting := (Restores.refresh c).resting ready.resting
  have symbolic : c.refresh.junction.models.Symbolic :=
    ModelStore.Uses.of_uncached_eq ready.symbolic (declared_refresh c)
  refine ⟨rfl, fun side => (ready.regions side).ready.reading, Junction.expressed_frozen symbolic,
    Junction.underlies_frozen _, outside_refresh c, fun side => ?_, fun found computing => ?_,
    fun found => (rests.models _ _ _ found).written, fun {name m} found fresh => ?_⟩
  · rw [region_refresh]
    exact ready.regions side
  · exact (rests.models _ _ _ found).idle computing
  · obtain ⟨data, value, size⟩ := (rests.models _ _ _ found).sized fresh
    refine ⟨data, value, size, fun _ => ⟨0, ?_⟩⟩
    have entry : c.refresh.junction.frozen.models.get? .node name = some { m with source := .written } := by
      rw [Junction.get?_frozen, found, Option.map_some, Model.frozen, if_pos fresh]
    rw [Junction.valueWithin_of_written entry rfl, show Model.value _ = some data from value]
    rfl

namespace Reading

theorem size_eq (reading : Reading c₀ c) :
    c.junction.models.models.size = c₀.junction.models.models.size := by
  rw [← Table.length_keys, ← Table.length_keys,
    ModelStore.keys_of_uncached_eq (congrArg Junction.models reading.declared)]

variable (ready : c₀.Ready) (reading : Reading c₀ c)

include ready reading

/-- Other reads of the regions, and remarks that were taken, make no difference. -/
theorem of_regions (junction : c'.junction.takeNotes.2 = c.junction.takeNotes.2)
    (regions : ∀ side, Region.Reading (c₀.region side) (c'.region side)) : Reading c₀ c' where
  declared := (congrArg Junction.uncached junction :).trans reading.declared
  regions := regions
  course := by
    have alike : ∀ side, (c'.region side).uncached = (c.region side).uncached := fun side =>
      (regions side).underway.declared.trans (reading.regions side).underway.declared.symm
    refine reading.course.of_regions ?_ (fun side => ?_) fun side => ?_
    · change (c'.junction.refresh c'.fingerprints).takeNotes.2 = (c.junction.refresh c.fingerprints).takeNotes.2
      rw [takeNotes_refresh, takeNotes_refresh, junction, fingerprints_of_uncached_eq alike]
    all_goals simp only [region_refresh]
    · refine ⟨fun d name result _ => ?_, Region.contains_of_uncached_eq (alike side),
        Region.parameter?_of_uncached_eq (alike side)⟩
      rw [(regions side).read_eq (ready.regions side).ready,
        (reading.regions side).read_eq (ready.regions side).ready]
    · exact (ready.regions side).of_underway (regions side).underway (regions side).balanced

theorem read (name : String) : Reading c₀ (c.read name).2 := by
  have kept : Kept c.refresh (c.read name).2 := (readWithin_kept _ name c.refresh).1
  have noticed : (c.read name).2.refresh = (c.read name).2 :=
    refresh_of_seen (by rw [kept.seen, seen_refresh, kept.fingerprints_eq])
  refine ⟨?_, fun side => ?_, ?_⟩
  · exact (uncached_readWithin _ name c.refresh).trans ((uncached_refresh c).trans reading.declared)
  · refine (kept.regions side).reading _ (ready.regions side).ready ?_
    rw [region_refresh]
    exact reading.regions side
  · rw [noticed]
    exact (reading.course.read _ name).1

/-- Reads before make no difference to a read. -/
theorem read_eq (name : String) : (c.read name).1 = (c₀.read name).1 := by
  have start := ready.reading
  have abreast : Abreast c₀.refresh.junction.frozen c₀.outside c₀ (fun _ => False) c₀.refresh c.refresh := by
    refine ⟨start.course, reading.course, fun side => ?_, fun _ => False.elim, fun _ => False.elim⟩
    rw [region_refresh, region_refresh]
    exact ⟨(ready.regions side).ready, start.regions side, reading.regions side⟩
  have enough := waiting_refresh_le c₀
  have enough' := waiting_refresh_le c
  rw [reading.size_eq] at enough'
  unfold Coupled.read
  rw [reading.size_eq]
  exact abreast.read_eq enough enough' name

end Reading

end Coupled

end FiniteVolume
