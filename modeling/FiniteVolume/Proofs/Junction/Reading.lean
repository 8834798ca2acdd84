import FiniteVolume.Proofs.Junction.Lookup

/-!
One read of an interface.

In the course of a read (`Coupled.Course`) fresh models have the values that recomputation from an
interface below gives, and so does what the read returns, unless it is a cycle. In particular it does so
where the interface below is that of the declarations, for models that are not shadowed
(`Coupled.Underway`). Where nothing is being computed, a read returns whatever recomputation gives
(`Coupled.Course.read_eq_iff`).
-/
namespace FiniteVolume

variable {β α : Type} [BaseScalar β] [Scalar α] [Precision β α]

/-- The second interface has the models of the first, and where they are not fresh they are declared
alike. -/
structure Junction.Underlies (j j' : Junction β α) : Prop where
  geometry : j'.geometry = j.geometry
  chunking : j'.chunking = j.chunking
  contains : j'.models.contains .node = j.models.contains .node
  declared : ∀ {name m}, j'.models.get? .node name = some m → m.state ≠ .fresh →
    ∃ m₀, j.models.get? .node name = some m₀ ∧ m₀.source = m.source ∧ m₀.contact = m.contact

omit [BaseScalar β] [Scalar α] [Precision β α] in
theorem Junction.underlies_of_uncached_eq {j j' : Junction β α} (same : j'.uncached = j.uncached) :
    j.Underlies j' where
  geometry := (congrArg Junction.geometry same :)
  chunking := (congrArg Junction.chunking same :)
  contains := congrFun (ModelStore.contains_of_uncached_eq (congrArg Junction.models same)) .node
  declared found _ :=
    let ⟨m₀, found₀, alike⟩ :=
      ModelStore.get?_of_uncached_eq (congrArg Junction.models same.symm) found
    ⟨m₀, found₀, Model.source_of_uncached alike, Model.contact_of_uncached alike⟩

omit [BaseScalar β] [Scalar α] [Precision β α] in
theorem Junction.Underlies.later {j j' j'' : Junction β α} (underlies : j.Underlies j')
    (same : j''.uncached = j'.uncached)
    (fresh : ∀ {name m}, j'.models.get? .node name = some m → m.state = .fresh →
      j''.models.get? .node name = some m) : j.Underlies j'' where
  geometry := (congrArg Junction.geometry same :).trans underlies.geometry
  chunking := (congrArg Junction.chunking same :).trans underlies.chunking
  contains := (underlies_of_uncached_eq same).contains.trans underlies.contains
  declared {name m''} found'' stale := by
    obtain ⟨m', found', alike⟩ :=
      ModelStore.get?_of_uncached_eq (congrArg Junction.models same.symm) found''
    have stale' : m'.state ≠ .fresh := fun isFresh => by
      cases found''.symm.trans (fresh found' isFresh)
      exact stale isFresh
    obtain ⟨m₀, found₀, source, contact⟩ := underlies.declared found' stale'
    exact ⟨m₀, found₀, source.trans (Model.source_of_uncached alike),
      contact.trans (Model.contact_of_uncached alike)⟩

namespace Coupled

variable {c c' : Coupled β α} {j : Junction β α} {o : Outside β α} {known stack : String → Prop}
  {name : String} {m : Model β α} {calculator : Calculator β α} {i k : Nat}
  {result : Except ModelError (Field α)}

/-! ## In the course of a read -/

/-- The interface and its regions in the course of a read: the regions answer so, no models but those on
the stack are being computed, and fresh models that are known have the values that recomputation from the
interface below gives. What is known is expressed by what is known. -/
structure Course (j : Junction β α) (o : Outside β α) (known stack : String → Prop) (c : Coupled β α) :
    Prop where
  expressed : j.Expressed known
  underlies : j.Underlies c.junction
  outside : c.outside = o
  settled : ∀ side, (c.region side).Settled
  stacked : ∀ {name m}, c.junction.models.get? .node name = some m → m.state = .computing →
    stack name
  written : ∀ {name m}, c.junction.models.get? .node name = some m → m.source = .written →
    m.state = .fresh
  current : ∀ {name m}, c.junction.models.get? .node name = some m → m.state = .fresh →
    ∃ data, m.value = some data ∧ data.size = j.size ∧ (known name → j.Yields o name (.ok data))

namespace Course

theorem parameters (course : Course j o known stack c) : c.parameter? = o.parameter :=
  congrArg Outside.parameter course.outside

theorem contains (course : Course j o known stack c) :
    c.junction.models.contains .node = j.models.contains .node := course.underlies.contains

theorem size_eq (course : Course j o known stack c) : c.junction.size = j.size :=
  congrArg Interface.size course.underlies.geometry

theorem surroundings_eq (course : Course j o known stack c) :
    c.junction.surroundings = j.surroundings := by
  rw [Junction.surroundings, Junction.surroundings, course.underlies.chunking]

theorem missing_iff (course : Course j o known stack c) :
    c.junction.models.get? .node name = none ↔ j.models.get? .node name = none := by
  have equal : (c.junction.models.get? .node name).isSome = (j.models.get? .node name).isSome :=
    congrFun course.contains name
  rw [← Option.not_isSome_iff_eq_none, ← Option.not_isSome_iff_eq_none, equal]

theorem declared_model (course : Course j o known stack c)
    (found : c.junction.models.get? .node name = some m) (outdated : m.state ≠ .fresh) :
    ∃ m₀, j.models.get? .node name = some m₀ ∧ m₀.source = m.source ∧
      j.targetOf name m₀ = c.targetOf name m := by
  obtain ⟨m₀, found₀, source, contact⟩ := course.underlies.declared found outdated
  exact ⟨m₀, found₀, source, by rw [Junction.targetOf, targetOf, course.size_eq, contact]⟩

theorem cases (course : Course j o known stack c) (name : String) :
    c.junction.models.get? .node name = none ∨
    (∃ m data, c.junction.models.get? .node name = some m ∧ m.state = .fresh ∧
      m.value = some data) ∨
    (∃ m, c.junction.models.get? .node name = some m ∧ m.state = .computing) ∨
    ∃ m calculator, c.junction.models.get? .node name = some m ∧ m.state = .stale ∧
      m.source = .computed calculator := by
  cases found : c.junction.models.get? .node name with
  | none => exact .inl rfl
  | some m =>
    cases state : m.state with
    | fresh =>
      obtain ⟨data, value, -⟩ := course.current found state
      exact .inr (.inl ⟨m, data, rfl, state, value⟩)
    | computing => exact .inr (.inr (.inl ⟨m, rfl, state⟩))
    | stale =>
      cases source : m.source with
      | computed calculator => exact .inr (.inr (.inr ⟨m, calculator, rfl, state, source⟩))
      | written => simp [course.written found source] at state

theorem mark (course : Course j o known stack c) (found : c.junction.models.get? .node name = some m)
    (stale : m.state = .stale) (computed : m.source = .computed calculator) :
    Course j o known (fun y => y = name ∨ stack y) (c.marked name m) := by
  have entry : ∀ y, (c.marked name m).junction.models.get? .node y =
      if y = name then some { m with state := .computing } else c.junction.models.get? .node y :=
    fun _ => get?_marked found
  refine ⟨course.expressed, course.underlies.later (uncached_marked found computed) fun found' fresh => ?_,
    course.outside, course.settled, fun found' computing => ?_, fun found' written => ?_,
    fun found' fresh => ?_⟩
  · rw [entry, if_neg fun same => ?_, found']
    cases found.symm.trans (same ▸ found')
    simp [stale] at fresh
  all_goals rw [entry] at found'; split at found'
  · next same => exact .inl same
  · exact .inr (course.stacked found' computing)
  · cases found'
    simp [computed] at written
  · exact course.written found' written
  · cases found'
    simp at fresh
  · exact course.current found' fresh

theorem of_regions (course : Course j o known stack c)
    (junction : c'.junction.takeNotes.2 = c.junction.takeNotes.2)
    (still : ∀ side, (c.region side).Still (c'.region side))
    (settled : ∀ side, (c'.region side).Settled) : Course j o known stack c' := by
  have models : c'.junction.models = c.junction.models := (congrArg Junction.models junction :)
  have geometry : c'.junction.geometry = c.junction.geometry := (congrArg Junction.geometry junction :)
  have chunking : c'.junction.chunking = c.junction.chunking := (congrArg Junction.chunking junction :)
  refine ⟨course.expressed, ⟨geometry.trans course.underlies.geometry,
    chunking.trans course.underlies.chunking, ?_, ?_⟩,
    (outside_of_still geometry chunking still).trans course.outside, settled, ?_, ?_, ?_⟩
  all_goals rw [models]
  · exact course.underlies.contains
  · exact course.underlies.declared
  · exact course.stacked
  · exact course.written
  · exact course.current

theorem setRegion (course : Course j o known stack c) {side : Side} {r : Region β α}
    (still : (c.region side).Still r) (settled : r.Settled) :
    Course j o known stack (c.setRegion side r) := by
  refine course.of_regions (by rw [junction_setRegion]) (fun other => ?_) fun other => ?_
  all_goals by_cases same : other = side
  · rwa [same, region_setRegion]
  · rw [region_setRegion_of_ne same]
    exact .refl _
  · rwa [same, region_setRegion]
  · rw [region_setRegion_of_ne same]
    exact course.settled other

/-- A lookup is as good as the reads of the models that it rests on. -/
theorem lookup (course : Course j o known stack c) {read : String → CoupledRead β α (Field α)}
    (sound : Course j o known stack (read name c).2 ∧ (known name →
      cycleOf (read name c).1 = none → j.Yields o name (read name c).1)) :
    Course j o known stack (lookupWith read name c).2 ∧ (known name →
      cycleOf (lookupWith read name c).1 = none → j.Answers o name (lookupWith read name c).1) := by
  cases present : c.junction.models.contains .node name with
  | true =>
    rw [lookupWith_of_contains present]
    refine ⟨sound.1, fun isKnown acyclic => ?_⟩
    rw [cycleOf_map] at acyclic
    exact Junction.answers_of_yields (course.contains ▸ present) (sound.2 isKnown acyclic)
  | false =>
    have absent : j.models.contains .node name = false := course.contains ▸ present
    have answered : c.outside.answer name = o.answer name := by rw [course.outside]
    rcases lookupWith_of_absent read present with
      ⟨ran, same⟩ | ⟨side, base, view, keeps, ran, same⟩
    · rw [ran]
      exact ⟨course, fun _ _ => Junction.answers_of_outside absent (answered ▸ same)⟩
    · rw [ran]
      refine ⟨course.setRegion ((course.settled side).still_read .node base)
        ((course.settled side).read .node base), fun _ acyclic => ?_⟩
      rw [keeps] at acyclic
      refine Junction.answers_of_outside absent ?_
      rw [← answered, same, acyclic?_eq_some_iff.mpr ⟨rfl, acyclic⟩]
      rfl

/-- Ending a calculation keeps the invariant when the values, if there are any, are those of
recomputation. -/
theorem conclude {outcome : Outcome α} {target : Target}
    (course : Course j o known (fun y => y = name ∨ stack y) c)
    (found : c.junction.models.get? .node name = some m) (computing : m.state = .computing)
    (computed : m.source = .computed calculator) (about : target = c.targetOf name m)
    (yields : known name → ∀ data, ModelStore.checked target none outcome.result = .ok data →
      j.Yields o name (.ok data)) :
    Course j o known stack (c.concluded target outcome).2 := by
  have same := uncached_concluded found computed about outcome
  rw [concluded_of_found found about] at same ⊢
  -- Only the entry of the model changes, from computing to fresh or stale.
  have entry : ∀ y, (c.junction.models.replace .node name
      (m.concluded (ModelStore.checked target none outcome.result))).get? .node y =
        if y = name then some (m.concluded (ModelStore.checked target none outcome.result))
        else c.junction.models.get? .node y := fun _ => ModelStore.get?_replace_node found
  refine ⟨course.expressed, course.underlies.later same fun found' fresh => ?_, course.outside,
    course.settled, fun found' computing' => ?_, fun found' written => ?_, fun found' fresh => ?_⟩
  · rw [entry, if_neg fun same => ?_, found']
    cases found.symm.trans (same ▸ found')
    simp [computing] at fresh
  all_goals rw [entry] at found'; split at found'
  · cases found'
    exact absurd computing' Model.state_concluded_ne_computing
  · next other => exact (course.stacked found' computing').resolve_left other
  · cases found'
    rw [Model.source_concluded, computed] at written
    cases written
  · exact course.written found' written
  · next same =>
    cases same
    cases found'
    cases checked : ModelStore.checked target none outcome.result with
    | error e => simp [checked, Model.concluded] at fresh
    | ok data =>
      refine ⟨data, rfl, ?_, fun isKnown => yields isKnown data checked⟩
      rw [ModelStore.size_of_checked checked, about, ← course.size_eq]
      rfl
  · exact course.current found' fresh

section

variable (course : Course j o known stack c)
  (found : c.junction.models.get? .node name = some m) (stale : m.state = .stale)
  (computed : m.source = .computed calculator) {onLookup : String → StateM (Coupled β α) (LookupResult α)}
  (kept : ∀ y s, Kept s (onLookup y s).2)
  (sound : ∀ y s, Course j o known (fun y => y = name ∨ stack y) s →
    Course j o known (fun y => y = name ∨ stack y) (onLookup y s).2 ∧ (known y →
      cycleOf (onLookup y s).1 = none → j.Answers o y (onLookup y s).1))

include course found stale computed kept sound

/-- A calculation with sound answers keeps the invariant, and if its model is known and no cycle is met,
it gives the values of recomputation. -/
theorem compute :
    let ran := (calculator.calculate c.junction.surroundings (c.targetOf name m)).runState onLookup
      parameter? (c.marked name m)
    let ended := ran.2.concluded (c.targetOf name m) ran.1
    Course j o known stack ended.2 ∧
      (known name → cycleOf ended.1 = none → j.Yields o name ended.1) := by
  intro ran ended
  have start := course.mark found stale computed
  have after : Course j o known (fun y => y = name ∨ stack y) ran.2 :=
    Query.runState_rel (R := fun s t => Course j o known (fun y => y = name ∨ stack y) s →
      Course j o known (fun y => y = name ∨ stack y) t) (fun _ => id)
      (fun _ _ _ first second => second ∘ first) (fun y s course => (sound y s course).1) start
  obtain ⟨marked, about⟩ := marked_of_run (q := calculator.calculate _ _) found kept
  have returned : ended.1 = ModelStore.checked (c.targetOf name m) none ran.1.result :=
    congrArg Prod.fst (concluded_of_found marked about ran.1)
  -- What the calculation asks for is known if its model is.
  have yields : known name → cycleOf ended.1 = none → j.Yields o name ended.1 := by
    intro isKnown acyclic
    obtain ⟨m₀, found₀, source, target⟩ := course.declared_model found (by simp [stale])
    obtain ⟨functions, e, rfl, models⟩ :=
      course.expressed isKnown ⟨m₀, found₀, source.trans computed⟩
    have meets := Calculator.meets_ofExpr functions e c.junction.surroundings (c.targetOf name m)
    rw [cycleOf_concluded found kept meets] at acyclic
    have returns : ((Calculator.ofExpr functions e).calculate j.surroundings
        (j.targetOf name m₀)).Returns (j.Answers o) o.parameter ran.1 := by
      rw [← course.surroundings_eq, target]
      refine Query.returns_of_acyclic meets start (fun s => Course.parameters)
        (fun y s course => (sound y s course).1) (fun y s leaf course => ?_)
        (List.findSome?_eq_none_iff.mp acyclic)
      exact (sound y s course).2 (models y leaf)
    rw [returned, ← target]
    exact Junction.yields_of_returns found₀ (source.trans computed) returns
  refine ⟨after.conclude marked rfl computed about fun isKnown data checked => ?_, yields⟩
  rw [← checked, ← returned]
  refine yields isKnown ?_
  rw [returned, checked]
  rfl

end

/-- A read keeps what is fresh current, and if its model is known and no cycle is met, it returns what
recomputation gives. -/
theorem read (course : Course j o known stack c) (k : Nat) (name : String) :
    Course j o known stack (readWithin k name c).2 ∧ (known name →
      cycleOf (readWithin k name c).1 = none → j.Yields o name (readWithin k name c).1) := by
  induction k using Nat.strongRecOn generalizing c stack name with
  | _ k ih =>
    rcases course.cases name with
      missing | ⟨m, data, found, fresh, value⟩ | ⟨m, found, computing⟩ |
      ⟨m, calculator, found, stale, computed⟩
    · rw [readWithin_of_missing missing]
      exact ⟨course, fun _ _ =>
        ⟨0, Junction.valueWithin_of_missing (course.missing_iff.mp missing)⟩⟩
    · rw [readWithin_of_fresh found fresh value]
      obtain ⟨data', value', -, yields⟩ := course.current found fresh
      cases value.symm.trans value'
      exact ⟨course, fun isKnown _ => yields isKnown⟩
    · rw [readWithin_of_computing found computing]
      exact ⟨course, fun _ acyclic => by simp [cycleOf, ModelError.cycle?] at acyclic⟩
    · rw [readWithin_of_stale found stale computed]
      refine course.compute found stale computed (kept_lookupWithin k) ?_
      intro y s course
      cases k with
      | zero =>
        have cyclic : (lookupWithin 0 y s).1 = .error (.cyclicDependency y) := rfl
        exact ⟨course, fun _ acyclic => by simp [cyclic, cycleOf, ModelError.cycle?] at acyclic⟩
      | succ k => exact course.lookup (ih k (by omega) course y)

/-! ## Where nothing is being computed -/

/-- A lookup gives the defined answer, provided that the read it rests on meets no cycle. -/
theorem lookup_eq_answer (course : Course j o known stack c)
    (isKnown : known name) {answer : LookupResult α}
    (answered : j.answerWith o (j.valueWithin o i) name = some answer)
    (acyclic : ∀ result, j.valueWithin o i name = some result →
      cycleOf (readWithin k name c).1 = none) :
    cycleOf answer = none ∧ (lookupWith (readWithin k) name c).1 = answer := by
  rw [Junction.answerWith, ← course.contains] at answered
  cases present : c.junction.models.contains .node name with
  | true =>
    rw [if_pos present] at answered
    obtain ⟨result, value, rfl⟩ := Option.map_eq_some_iff.mp answered
    have acyclic := acyclic result value
    have same : (readWithin k name c).1 = result :=
      ((course.read k name).2 isKnown acyclic).unique ⟨i, value⟩
    rw [lookupWith_of_contains present, cycleOf_map, ← same]
    exact ⟨acyclic, rfl⟩
  | false =>
    rw [if_neg (by simp [present]), ← course.outside] at answered
    rcases lookupWith_of_absent (readWithin k) present with
      ⟨ran, same⟩ | ⟨side, base, view, keeps, ran, same⟩
    · rw [same] at answered
      cases answered
      exact ⟨rfl, by rw [ran]⟩
    · rw [same] at answered
      obtain ⟨result, value, rfl⟩ := Option.map_eq_some_iff.mp answered
      obtain ⟨rfl, acyclic⟩ := acyclic?_eq_some_iff.mp value
      exact ⟨(keeps _).trans acyclic, by rw [ran]⟩

/-- No cycle is met by a calculation that is defined at a depth where nothing on the stack is, its model
included, provided that none is met by what it reads. -/
theorem acyclic_compute (course : Course j o known stack c)
    (isKnown : known name) (found : c.junction.models.get? .node name = some m)
    (stale : m.state = .stale) (computed : m.source = .computed calculator)
    (defined : j.valueWithin o (i + 1) name = some result)
    (enough : (c.marked name m).junction.models.waiting ≤ k)
    (below : ∀ {s y result}, Course j o known (fun y => y = name ∨ stack y) s →
      s.junction.models.waiting ≤ k → known y → j.valueWithin o i y = some result →
        cycleOf (readWithin k y s).1 = none) :
    let ran := (calculator.calculate c.junction.surroundings (c.targetOf name m)).runState
      (lookupWithin (k + 1)) parameter? (c.marked name m)
    cycleOf (ran.2.concluded (c.targetOf name m) ran.1).1 = none := by
  intro ran
  obtain ⟨m₀, found₀, source, target⟩ := course.declared_model found (by simp [stale])
  have source := source.trans computed
  obtain ⟨functions, e, rfl, models⟩ := course.expressed isKnown ⟨m₀, found₀, source⟩
  rw [Junction.valueWithin_succ found₀ source, target, ← course.surroundings_eq] at defined
  obtain ⟨outcome, ran, -⟩ := Option.map_eq_some_iff.mp defined
  have meets := Calculator.meets_ofExpr functions e c.junction.surroundings (c.targetOf name m)
  have returns := (Query.run_option_eq_some_iff.mp ran).restrict meets
  -- During the calculation every question that recomputation answers is answered alike, without a cycle.
  have answers : ∀ y (s : Coupled β α) a,
      Course j o known (fun y => y = name ∨ stack y) s ∧ s.junction.models.waiting ≤ k →
      (.model y ∈ e.leaves ∧ j.answerWith o (j.valueWithin o i) y = some a) →
      cycleOf a = none ∧ (lookupWithin (k + 1) y s).1 = a := by
    rintro y s a ⟨during, enough⟩ ⟨leaf, answered⟩
    exact during.lookup_eq_answer (models y leaf) answered fun result value =>
      below during enough (models y leaf) value
  have follows : ∀ y (s : Coupled β α),
      Course j o known (fun y => y = name ∨ stack y) s ∧ s.junction.models.waiting ≤ k →
      Course j o known (fun y => y = name ∨ stack y) (lookupWithin (k + 1) y s).2 ∧
        (lookupWithin (k + 1) y s).2.junction.models.waiting ≤ k := by
    rintro y s ⟨during, enough⟩
    exact ⟨(during.lookup (during.read k y)).1,
      Nat.le_trans (kept_lookupWithin (k + 1) y s).models.waiting_le enough⟩
  refine (cycleOf_concluded found (kept_lookupWithin (k + 1)) meets).trans ?_
  refine List.findSome?_eq_none_iff.mpr ?_
  rintro ⟨y | p, s⟩ asked
  · obtain ⟨within, a, answered⟩ := Query.answered_of_mem_log returns
      ⟨course.mark found stale computed, enough⟩ (fun s within => within.1.parameters)
      (fun y s a within answered => ⟨(answers y s a within answered).2, follows y s within⟩)
      y s asked
    obtain ⟨acyclic, same⟩ := answers y s a within answered
    rw [Query.cycleIn, same, acyclic]
  · rfl

/-- Where the models on the stack nest deeper than what is read, no cycle is met. -/
theorem acyclic_read (course : Course j o known stack c)
    (isKnown : known name) (defined : j.valueWithin o i name = some result)
    (deeper : ∀ y, stack y → j.valueWithin o i y = none) (enough : c.junction.models.waiting ≤ k) :
    cycleOf (readWithin k name c).1 = none := by
  induction i using Nat.strongRecOn generalizing c stack name result k with
  | _ i ih =>
    rcases course.cases name with
      missing | ⟨m, data, found, fresh, value⟩ | ⟨m, found, computing⟩ |
      ⟨m, calculator, found, stale, computed⟩
    · rw [readWithin_of_missing missing]
      rfl
    · rw [readWithin_of_fresh found fresh value]
      rfl
    · rw [deeper name (course.stacked found computing)] at defined
      cases defined
    · cases i with
      | zero =>
        obtain ⟨m₀, found₀, source, -⟩ := course.declared_model found (by simp [stale])
        rw [Junction.valueWithin_zero found₀ (source.trans computed)] at defined
        cases defined
      | succ i =>
        have shallower : ∀ y, stack y → j.valueWithin o i y = none := fun y onStack =>
          Junction.valueWithin_eq_none (Nat.le_succ i) (deeper y onStack)
        -- At the least depth where the model is defined it is not on the stack one step below.
        cases earlier : j.valueWithin o i name with
        | some result => exact ih i (by omega) course isKnown earlier shallower enough
        | none =>
          have fewer : (c.marked name m).junction.models.waiting < c.junction.models.waiting :=
            ModelStore.waiting_marked_lt found stale
          obtain ⟨k, rfl⟩ : ∃ l, k = l + 1 := ⟨k - 1, by omega⟩
          rw [readWithin_of_stale found stale computed]
          refine course.acyclic_compute isKnown found stale computed defined (by omega) ?_
          intro s y result during enough isKnown value
          refine ih i (by omega) during isKnown value ?_ enough
          rintro y (rfl | onStack)
          · exact earlier
          · exact shallower y onStack

/-- Where nothing is being computed, a read returns what recomputation gives and nothing else, unless
a cycle is met. -/
theorem read_eq_iff (course : Course j o known (fun _ => False) c)
    (isKnown : known name) (enough : c.junction.models.waiting ≤ k)
    (acyclic : cycleOf result = none) :
    (readWithin k name c).1 = result ↔ j.Yields o name result := by
  constructor
  · rintro rfl
    exact (course.read k name).2 isKnown acyclic
  · rintro ⟨i, value⟩
    have acyclic := course.acyclic_read isKnown value (fun y => False.elim) enough
    exact ((course.read k name).2 isKnown acyclic).unique ⟨i, value⟩

section

variable {k' : Nat} (course : Course j o known (fun _ => False) c)
  (course' : Course j o known (fun _ => False) c')
  (isKnown : known name) (enough : c.junction.models.waiting ≤ k)
  (enough' : c'.junction.models.waiting ≤ k')

include course course' isKnown enough enough'

/-- Two stages of the same declarations read against regions that answer the same. -/
theorem same_read :
    Region.SameUnlessCyclic (readWithin k name c).1 (readWithin k' name c').1 := by
  rw [← acyclic?_eq_iff]
  refine Option.ext fun result => ?_
  rw [acyclic?_eq_some_iff, acyclic?_eq_some_iff, and_congr_left_iff]
  intro acyclic
  rw [course.read_eq_iff isKnown enough acyclic,
    course'.read_eq_iff isKnown enough' acyclic]

theorem same_lookup : Region.SameUnlessCyclic (lookupWith (readWithin k) name c).1
    (lookupWith (readWithin k') name c').1 := by
  have same : c'.junction.models.contains .node = c.junction.models.contains .node :=
    course'.contains.trans course.contains.symm
  cases present : c.junction.models.contains .node name with
  | true =>
    rw [lookupWith_of_contains present, lookupWith_of_contains (same ▸ present)]
    exact (same_read course course' isKnown enough enough').map _
  | false =>
    rw [← acyclic?_eq_iff, acyclic?_lookup_of_absent present, acyclic?_lookup_of_absent (same ▸ present),
      course.outside, course'.outside]

end

end Course

/-! ## Against the declarations -/

/-- The interface is that of the declarations read against regions that answer so, no models but those
on the stack are being computed, and fresh models that are not shadowed have the values that
recomputation gives. -/
structure Underway (j : Junction β α) (o : Outside β α) (stack : String → Prop) (c : Coupled β α) :
    Prop where
  declared : c.junction.uncached = j.uncached
  outside : c.outside = o
  settled : ∀ side, (c.region side).Settled
  stacked : ∀ {name m}, c.junction.models.get? .node name = some m → m.state = .computing →
    stack name
  written : ∀ {name m}, c.junction.models.get? .node name = some m → m.source = .written →
    m.state = .fresh
  current : ∀ {name m}, c.junction.models.get? .node name = some m → m.state = .fresh →
    ∃ data, m.value = some data ∧ data.size = j.size ∧
      (j.Unshadowed name → j.Yields o name (.ok data))

namespace Underway

variable (underway : Underway j o stack c)

include underway

theorem size_eq : c.junction.size = j.size := (congrArg Junction.size underway.declared :)

theorem course : Course j o j.Unshadowed stack c where
  expressed := Junction.expressed_unshadowed
  underlies := Junction.underlies_of_uncached_eq underway.declared
  outside := underway.outside
  settled := underway.settled
  stacked := underway.stacked
  written := underway.written
  current := underway.current

omit underway in
theorem of_course (course : Course j o j.Unshadowed stack c)
    (declared : c.junction.uncached = j.uncached) : Underway j o stack c where
  declared := declared
  outside := course.outside
  settled := course.settled
  stacked := course.stacked
  written := course.written
  current := course.current

theorem read (k : Nat) (name : String) : Underway j o stack (readWithin k name c).2 :=
  .of_course (underway.course.read k name).1
    ((uncached_readWithin k name c).trans underway.declared)

theorem lookup (k : Nat) (name : String) : Underway j o stack (lookupWith (readWithin k) name c).2 := by
  refine .of_course (underway.course.lookup (underway.course.read k name)).1 ?_
  have kept : (lookupWith (readWithin k) name c).2.junction.uncached = c.junction.uncached :=
    lookupWith_rel (R := fun c c' => c'.junction.uncached = c.junction.uncached) rfl
      (fun name => uncached_readWithin k name c) (fun side name => by rw [junction_setRegion]) name
  exact kept.trans underway.declared

end Underway

end Coupled

end FiniteVolume
