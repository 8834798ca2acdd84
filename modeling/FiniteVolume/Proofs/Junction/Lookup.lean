import FiniteVolume.Proofs.Junction.Recomputation
import FiniteVolume.Proofs.Model.Coherence
import FiniteVolume.Proofs.Model.Still

/-!
What an interface asks of its regions, and the equations of a read and a lookup.

A name of which the interface has no model is answered by one read of one region at most
(`Coupled.lookupWith_of_absent`), and regions that stand still answer the same whatever was cached in
between (`Coupled.outside_of_still`).
-/
namespace FiniteVolume

variable {β α : Type}

/-! ## Results that are no cycles -/

def acyclic? {ρ : Type} (result : Except ModelError ρ) : Option (Except ModelError ρ) :=
  if (cycleOf result).isSome then none else some result

theorem acyclic?_eq_some_iff {ρ : Type} {result result' : Except ModelError ρ} :
    acyclic? result = some result' ↔ result = result' ∧ cycleOf result' = none := by
  unfold acyclic?
  split
  next cyclic =>
    constructor
    · intro nothing
      cases nothing
    · rintro ⟨rfl, acyclic⟩
      simp [acyclic] at cyclic
  next acyclic =>
    rw [Option.some.injEq]
    refine ⟨?_, And.left⟩
    rintro rfl
    exact ⟨rfl, by simpa using acyclic⟩

theorem acyclic?_eq_iff {ρ : Type} {result result' : Except ModelError ρ} :
    acyclic? result = acyclic? result' ↔ Region.SameUnlessCyclic result result' := by
  unfold acyclic? Region.SameUnlessCyclic
  cases cycle : cycleOf result <;> cases cycle' : cycleOf result' <;> simp
  all_goals
    rintro rfl
    simp [cycle] at cycle'

theorem Region.Still.acyclic?_read [Scalar α] {r r' : Region β α} (still : Still r r') (d : Domain)
    (name : String) : acyclic? (r'.read d name).1 = acyclic? (r.read d name).1 := by
  refine Option.ext fun result => ?_
  rw [acyclic?_eq_some_iff, acyclic?_eq_some_iff, and_congr_left_iff]
  exact still.reads d name result

theorem ModelStore.keys_of_uncached_eq {s s' : ModelStore β α} (same : s'.uncached = s.uncached) :
    s'.models.keys = s.models.keys := by
  have keys := congrArg (fun s => s.models.keys) same
  simpa [uncached, Table.keys_mapEntries] using keys

/-- Models that are being computed stay so while others are read. -/
theorem ModelStore.Kept.waiting_le {s s' : ModelStore β α} (kept : Kept s s') :
    s'.waiting ≤ s.waiting := by
  rw [ModelStore.waiting, ModelStore.waiting, keys_of_uncached_eq kept.declared]
  refine (List.monotone_filter_right _ fun key idle => ?_).length_le
  have idle : s'.state? key.1 key.2 ≠ some .computing := of_decide_eq_true idle
  refine decide_eq_true fun computing => idle ?_
  obtain ⟨m, found, state⟩ := Option.map_eq_some_iff.mp computing
  exact Option.map_eq_some_iff.mpr ⟨m, kept.held found (.inl (by simp [state])), state⟩

theorem ModelStore.get?_replace_node {s : ModelStore β α} {name y : String} {m m' : Model β α}
    (found : s.get? .node name = some m) :
    (s.replace .node name m').get? .node y = if y = name then some m' else s.get? .node y := by
  rw [get?_replace]
  by_cases same : y = name <;> simp [same, found]

namespace Coupled

variable [Scalar α] {c c' : Coupled β α} {name : String} {m : Model β α} {k : Nat}

/-! ## What the regions answer -/

/-- What an interface learns of its regions as they are. -/
def outside (c : Coupled β α) : Outside β α where
  answer name :=
    match Suffix.split? name with
    | some (base, .interfaceSide side) =>
      if (c.region side).models.contains .node base then
        (acyclic? ((c.region side).read .node base).1).map fun result => result.map fun values =>
          some ⟨.node, values.gather c.junction.chunking (c.junction.geometry.nodes side).toArray⟩
      else some (.ok none)
    | _ => some (.ok none)
  parameter := c.parameter?

/-- Regions that answer reads alike are alike to the interface. -/
theorem outside_congr (geometry : c'.junction.geometry = c.junction.geometry)
    (chunking : c'.junction.chunking = c.junction.chunking)
    (contains : ∀ side, (c'.region side).models.contains = (c.region side).models.contains)
    (parameters : ∀ side, (c'.region side).parameter? = (c.region side).parameter?)
    (reads : ∀ side name, acyclic? ((c'.region side).read .node name).1 =
      acyclic? ((c.region side).read .node name).1) : c'.outside = c.outside := by
  have parameter : c'.parameter? = c.parameter? := by
    funext p
    have left : c'.region0.parameter? = c.region0.parameter? := parameters .first
    have right : c'.region1.parameter? = c.region1.parameter? := parameters .second
    rw [parameter?, parameter?, left, right]
  have answer : c'.outside.answer = c.outside.answer := by
    funext name
    unfold outside
    dsimp only
    rcases Suffix.split? name with _ | ⟨base, end_ | corner | side⟩
    case some.interfaceSide => simp only [contains, reads, geometry, chunking]
    all_goals rfl
  unfold outside at answer ⊢
  simp only [parameter, Outside.mk.injEq, and_true]
  exact answer

theorem outside_of_still (geometry : c'.junction.geometry = c.junction.geometry)
    (chunking : c'.junction.chunking = c.junction.chunking)
    (still : ∀ side, (c.region side).Still (c'.region side)) : c'.outside = c.outside :=
  outside_congr geometry chunking (fun side => (still side).contains)
    (fun side => (still side).parameters) fun side _ => (still side).acyclic?_read _ _

/-! ## What noticing a change leaves as it is -/

omit [Scalar α] in
theorem takeNotes_refresh (j : Junction β α) (now : Fingerprint × Fingerprint) :
    (j.refresh now).takeNotes.2 = j.takeNotes.2.refresh now := by
  unfold Junction.refresh
  split
  next seen => exact (if_pos seen).symm
  next unseen => exact (if_neg unseen).symm

omit [Scalar α] in
theorem uncached_refresh (c : Coupled β α) : c.refresh.junction.uncached = c.junction.uncached := by
  rw [Junction.uncached, declared_refresh]
  unfold refresh Junction.refresh
  split <;> rfl

theorem outside_refresh (c : Coupled β α) : c.refresh.outside = c.outside := by
  have same := uncached_refresh c
  refine outside_of_still (congrArg Junction.geometry same :) (congrArg Junction.chunking same :)
    fun side => ?_
  cases side <;> exact .refl _

omit [Scalar α] in
/-- A read may nest as deep as there are models to wait for. -/
theorem waiting_refresh_le (c : Coupled β α) :
    c.refresh.junction.models.waiting ≤ c.junction.models.models.size := by
  rw [← Table.length_keys, ← ModelStore.keys_of_uncached_eq (declared_refresh c), Table.length_keys]
  exact ModelStore.waiting_le_size _

/-! ## The equations of a lookup -/

variable {read : String → CoupledRead β α (Field α)}

theorem lookupWith_of_contains (present : c.junction.models.contains .node name = true) :
    lookupWith read name c =
      ((read name c).1.map fun data => some ⟨.node, data⟩, (read name c).2) := by
  unfold lookupWith
  change (if c.junction.models.contains .node name then _ else _ : CoupledRead β α _) c = _
  rw [if_pos present]
  rcases ran : read name c with ⟨e | data, c'⟩
  · exact CoupledRead.bind_of_error ran
  · exact CoupledRead.bind_of_ok ran

/-- A name of which the interface has no model is that of a node model of a region, or unknown. -/
theorem lookupWith_of_not_contains (absent : c.junction.models.contains .node name = false) :
    lookupWith read name c =
      match Suffix.split? name with
      | some (base, .interfaceSide side) =>
        if (c.region side).models.contains .node base then
          (((c.region side).read .node base).1.map fun values =>
            some ⟨.node, values.gather c.junction.chunking (c.junction.geometry.nodes side).toArray⟩,
            c.setRegion side ((c.region side).read .node base).2)
        else (.ok none, c)
      | _ => (.ok none, c) := by
  unfold lookupWith
  change (if c.junction.models.contains .node name then _ else _ : CoupledRead β α _) c = _
  rw [if_neg (by simp [absent])]
  rcases Suffix.split? name with _ | ⟨base, side | corner | side⟩
  case some.interfaceSide =>
    dsimp only
    split
    · rcases ran : (c.region side).read .node base with ⟨e | data, r⟩
      · have step : onRegion side (Region.read .node base) c = (.error e, c.setRegion side r) := by
          rw [onRegion, ran]
        exact CoupledRead.bind_of_error step
      · have step : onRegion side (Region.read .node base) c = (.ok data, c.setRegion side r) := by
          rw [onRegion, ran]
        exact CoupledRead.bind_of_ok step
    · rfl
  all_goals rfl

/-- A name of which the interface has no model is answered at once or by one read of one region. -/
theorem lookupWith_of_absent (read : String → CoupledRead β α (Field α))
    (absent : c.junction.models.contains .node name = false) :
    (lookupWith read name c = (.ok none, c) ∧ c.outside.answer name = some (.ok none)) ∨
    ∃ side base, ∃ view : Except ModelError (Field α) → LookupResult α,
      (∀ result, cycleOf (view result) = cycleOf result) ∧
      lookupWith read name c = (view ((c.region side).read .node base).1,
        c.setRegion side ((c.region side).read .node base).2) ∧
      c.outside.answer name = (acyclic? ((c.region side).read .node base).1).map view := by
  rw [lookupWith_of_not_contains absent]
  unfold outside
  dsimp only
  rcases Suffix.split? name with _ | ⟨base, side | corner | side⟩
  case some.interfaceSide =>
    dsimp only
    split
    · exact .inr ⟨side, base, _, fun result => cycleOf_map _ result, rfl, rfl⟩
    · exact .inl ⟨rfl, rfl⟩
  all_goals exact .inl ⟨rfl, rfl⟩

/-- A lookup reads one model of the interface or of a region at most. -/
theorem lookupWith_rel {R : Coupled β α → Coupled β α → Prop} (refl : R c c)
    (step : ∀ name, R c (read name c).2)
    (region : ∀ side name, R c (c.setRegion side ((c.region side).read .node name).2)) (name : String) :
    R c (lookupWith read name c).2 := by
  cases present : c.junction.models.contains .node name with
  | true =>
    rw [lookupWith_of_contains present]
    exact step name
  | false =>
    rcases lookupWith_of_absent read present with ⟨ran, -⟩ | ⟨side, base, _, _, ran, _⟩
    · rwa [ran]
    · rw [ran]
      exact region side base

theorem acyclic?_lookup_of_absent (absent : c.junction.models.contains .node name = false) :
    acyclic? (lookupWith read name c).1 = c.outside.answer name := by
  rcases lookupWith_of_absent read absent with
    ⟨ran, same⟩ | ⟨side, base, view, keeps, ran, same⟩
  · rw [ran, same]
    rfl
  · rw [ran, same]
    unfold acyclic?
    rw [keeps]
    split <;> rfl

theorem readWithin_of_missing (missing : c.junction.models.get? .node name = none) :
    readWithin k name c = (.error (.missingModel .node name), c) :=
  readWithin_of_begin (ModelStore.begin_of_missing missing)

theorem readWithin_of_computing (found : c.junction.models.get? .node name = some m)
    (computing : m.state = .computing) :
    readWithin k name c = (.error (.cyclicDependency name), c) :=
  readWithin_of_begin (ModelStore.begin_of_computing found computing)

theorem readWithin_of_fresh (found : c.junction.models.get? .node name = some m)
    (fresh : m.state = .fresh) {data : Field α} (value : m.value = some data) :
    readWithin k name c = (.ok data, c) :=
  readWithin_of_begin (ModelStore.begin_of_fresh found fresh value)

theorem kept_lookupWithin (k : Nat) (name : String) (c : Coupled β α) :
    Kept c (lookupWithin k name c).2 := by
  cases k with
  | zero => exact .refl c
  | succ k => exact kept_lookupWith (fun name c => (readWithin_kept k name c).1) name c

/-! ## The calculation of a model -/

theorem concluded_of_found (found : c.junction.models.get? .node name = some m)
    {target : Target} (about : target = c.targetOf name m) (outcome : Outcome α) :
    c.concluded target outcome = (ModelStore.checked target none outcome.result,
      { c with junction := { c.junction with
          models := c.junction.models.replace .node name
            (m.concluded (ModelStore.checked target none outcome.result))
          notes := c.junction.notes ++ outcome.remarks.map (⟨target.name, ·⟩) } }) := by
  subst about
  have ended : c.junction.models.conclude (c.targetOf name m) _ = _ :=
    ModelStore.conclude_of_found found
      (ModelStore.checked (c.targetOf name m) none outcome.result)
  simp only [concluded, ModelStore.finish, ended]
  rfl

/-- What holds of reads of a region and of a calculation from its start to its end holds of every read. -/
theorem readWithin_rel {R : Coupled β α → Coupled β α → Prop} (refl : ∀ c, R c c)
    (trans : ∀ c c' c'', R c c' → R c' c'' → R c c'')
    (region : ∀ c side name, R c (c.setRegion side ((c.region side).read .node name).2))
    (calculation : ∀ c c' name m calculator outcome, c.junction.models.get? .node name = some m →
      m.state = .stale → m.source = .computed calculator → R (c.marked name m) c' →
        R c (c'.concluded (c.targetOf name m) outcome).2)
    (k : Nat) (name : String) (c : Coupled β α) : R c (readWithin k name c).2 := by
  induction k using Nat.strongRecOn generalizing name c with
  | _ k ih =>
    rcases c.junction.models.begin_cases .node name with
      ⟨m, calculator, found, stale, computed⟩ | ⟨result, began⟩
    · rw [readWithin_of_stale found stale computed]
      have answers : ∀ name c, R c (lookupWithin k name c).2 := by
        intro name c
        cases k with
        | zero => exact refl c
        | succ k => exact lookupWith_rel (refl c) (fun name => ih k (by omega) name c) (region c) name
      exact calculation _ _ _ _ _ _ found stale computed (Query.runState_rel refl trans answers)
    · rw [readWithin_of_begin (began _)]
      exact refl c

omit [Scalar α] in
theorem get?_marked {y : String} (found : c.junction.models.get? .node name = some m) :
    (c.marked name m).junction.models.get? .node y =
      if y = name then some { m with state := .computing } else c.junction.models.get? .node y :=
  ModelStore.get?_replace_node found

omit [Scalar α] in
theorem uncached_marked {calculator : Calculator β α}
    (found : c.junction.models.get? .node name = some m) (computed : m.source = .computed calculator) :
    (c.marked name m).junction.uncached = c.junction.uncached := by
  rw [marked, Junction.uncached, Junction.uncached]
  simp only [ModelStore.uncached_replace found (m.uncached_cache computed .computing m.value)]

theorem uncached_concluded {calculator : Calculator β α} {target : Target}
    (found : c.junction.models.get? .node name = some m) (computed : m.source = .computed calculator)
    (about : target = c.targetOf name m) (outcome : Outcome α) :
    (c.concluded target outcome).2.junction.uncached = c.junction.uncached := by
  have cache : (m.concluded (ModelStore.checked target none outcome.result)).uncached = m.uncached := by
    cases ModelStore.checked target none outcome.result <;> exact m.uncached_cache computed _ _
  rw [concluded_of_found found about, Junction.uncached, Junction.uncached]
  simp only [ModelStore.uncached_replace found cache]

theorem uncached_readWithin (k : Nat) (name : String) (c : Coupled β α) :
    (readWithin k name c).2.junction.uncached = c.junction.uncached := by
  refine readWithin_rel (R := fun c c' => c'.junction.uncached = c.junction.uncached) (fun _ => rfl)
    (fun _ _ _ first second => second.trans first) (fun c side name => by rw [junction_setRegion]) ?_ k name c
  intro c c' name m calculator outcome found stale computed ran
  have declared := ran.trans (uncached_marked found computed)
  obtain ⟨m', found', same⟩ :=
    ModelStore.get?_of_uncached_eq (congrArg Junction.models declared) found
  have about : c.targetOf name m = c'.targetOf name m' := by
    rw [targetOf, targetOf, Model.contact_of_uncached same,
      show c'.junction.size = c.junction.size from (congrArg Junction.size declared :)]
  rw [uncached_concluded found' ((Model.source_of_uncached same).trans computed) about]
  exact declared

variable {onLookup : String → StateM (Coupled β α) (LookupResult α)}

theorem marked_of_run {ρ : Type} {q : Query β α ρ}
    (found : c.junction.models.get? .node name = some m) (kept : ∀ y s, Kept s (onLookup y s).2) :
    let ran := (q.runState onLookup parameter? (c.marked name m)).2
    ran.junction.models.get? .node name = some { m with state := .computing } ∧
      c.targetOf name m = ran.targetOf name { m with state := .computing } := by
  intro ran
  have run : Kept (c.marked name m) ran := Query.runState_rel .refl (fun _ _ _ => .trans) kept
  refine ⟨run.models.held (ModelStore.get?_replace_self found) (.inl (by simp)), ?_⟩
  rw [targetOf, targetOf, Junction.size, Junction.size, run.geometry]
  rfl

/-- A model ends with the first cycle among the answers to its questions. -/
theorem cycleOf_concluded {allowed : Question → Prop}
    (found : c.junction.models.get? .node name = some m) (kept : ∀ y s, Kept s (onLookup y s).2)
    {q : Query β α (Outcome α)}
    (meets : q.Meets allowed (fun seen outcome => cycleOf outcome.result = seen) none) :
    let ran := q.runState onLookup parameter? (c.marked name m)
    cycleOf (ran.2.concluded (c.targetOf name m) ran.1).1 =
      (q.log onLookup parameter? (c.marked name m)).findSome? (Query.cycleIn onLookup) := by
  intro ran
  obtain ⟨marked, about⟩ := marked_of_run (q := q) found kept
  rw [concluded_of_found marked about, ModelStore.cycleOf_checked, meets.post_runState, Option.none_or]

end Coupled

end FiniteVolume
