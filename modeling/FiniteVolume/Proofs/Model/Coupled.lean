import FiniteVolume.Model.Junction
import FiniteVolume.Proofs.Model.Values

/-!
The values of the models of an interface while others are read.

Once the regions were noticed, a read replaces only stale models that are computed, and it notices
nothing new (`Coupled.Kept`). What a read returned is therefore at hand as long as models are merely
read (`Coupled.Leads`), as it is for the models of a region.
-/
namespace FiniteVolume

variable {β α : Type}

/-! ## Stores -/

/-- A read has nothing to calculate: the model is not stale, or it was written. -/
def Model.Held (m : Model β α) : Prop := m.state ≠ .stale ∨ m.source = .written

namespace ModelStore

variable {s s' : ModelStore β α} {d : Domain} {name : String} {m : Model β α}

theorem contains_of_uncached_eq (same : s'.uncached = s.uncached) : s'.contains = s.contains := by
  funext d name
  rw [← contains_uncached, same, contains_uncached]

theorem get?_replace_self {m' : Model β α} (found : s.get? d name = some m) :
    (s.replace d name m').get? d name = some m' := by
  rw [get?_replace, if_pos rfl, found]
  rfl

/-- The second store follows the first in the course of reads. -/
structure Kept (s s' : ModelStore β α) : Prop where
  declared : s'.uncached = s.uncached
  held : ∀ {d name m}, s.get? d name = some m → m.Held → s'.get? d name = some m

theorem Kept.refl (s : ModelStore β α) : Kept s s := ⟨rfl, fun found _ => found⟩

theorem Kept.trans {s'' : ModelStore β α} (first : Kept s s') (second : Kept s' s'') : Kept s s'' :=
  ⟨second.declared.trans first.declared, fun found held => second.held (first.held found held) held⟩

/-- A computation that ends replaces the model it is about, which was not held before it. -/
theorem Kept.conclude {calculator : Calculator β α} (found : s.get? d name = some m)
    (stale : m.state = .stale) (computed : m.source = .computed calculator)
    (ran : Kept (s.replace d name { m with state := .computing }) s')
    (result : Except ModelError (Field α)) :
    s'.get? d name = some { m with state := .computing } ∧
      Kept s (s'.replace d name (Model.concluded { m with state := .computing } result)) := by
  have marked : s'.get? d name = some { m with state := .computing } :=
    ran.held (get?_replace_self found) (.inl (by simp))
  refine ⟨marked, ?_, fun {d' name' m'} found' held => ?_⟩
  · have cache : (Model.concluded { m with state := .computing } result).uncached =
        Model.uncached { m with state := .computing } := by
      cases result <;> simp [Model.concluded, Model.uncached, computed]
    rw [uncached_replace marked cache, ran.declared,
      uncached_replace found (m.uncached_cache computed .computing m.value)]
  · have other : (d', name') ≠ (d, name) := by
      intro same
      cases same
      cases found.symm.trans found'
      simp [Model.Held, stale, computed] at held
    rw [get?_replace, if_neg other]
    refine ran.held ?_ held
    rw [get?_replace, if_neg other, found']

end ModelStore

/-- Every value that is kept has one entry for every pair. -/
def Junction.Sized (j : Junction β α) : Prop := j.models.Sized j.domainSize

/-! ## Running steps -/

namespace CoupledRead

variable {ρ σ : Type} {a : CoupledRead β α ρ} {f : ρ → CoupledRead β α σ} {c c' : Coupled β α}

theorem bind_of_ok {x : ρ} (ran : a c = (.ok x, c')) : (a >>= f) c = f x c' := by
  change (ExceptT.bindCont f (a c).1 : StateM (Coupled β α) _) (a c).2 = _
  rw [ran]
  rfl

theorem bind_of_error {e : ModelError} (ran : a c = (.error e, c')) :
    (a >>= f) c = (.error e, c') := by
  change (ExceptT.bindCont f (a c).1 : StateM (Coupled β α) _) (a c).2 = _
  rw [ran]
  rfl

end CoupledRead

namespace Coupled

variable {c c' c'' : Coupled β α} {name : String} {data : Field α}

@[simp] theorem region_setRegion (side : Side) (r : Region β α) :
    (c.setRegion side r).region side = r := by cases side <;> rfl

theorem region_setRegion_of_ne {side side' : Side} (other : side' ≠ side) (r : Region β α) :
    (c.setRegion side r).region side' = c.region side' := by
  cases side <;> cases side' <;> first | rfl | exact absurd rfl other

@[simp] theorem junction_setRegion (side : Side) (r : Region β α) :
    (c.setRegion side r).junction = c.junction := by cases side <;> rfl

def fingerprints (c : Coupled β α) : Fingerprint × Fingerprint :=
  (c.region0.fingerprint, c.region1.fingerprint)

variable [Scalar α]

/-! ## During a read -/

/-- The second pair of junction and regions follows the first in the course of reads, all changes of
the regions having been noticed. -/
structure Kept (c c' : Coupled β α) : Prop where
  geometry : c'.junction.geometry = c.junction.geometry
  seen : c'.junction.seen = c.junction.seen
  models : c.junction.models.Kept c'.junction.models
  sized : c.junction.Sized → c'.junction.Sized
  regions : ∀ side, Owner.Later (c.region side) (c'.region side)

theorem Kept.refl (c : Coupled β α) : Kept c c := ⟨rfl, rfl, .refl _, id, fun _ => Owner.refl _⟩

theorem Kept.trans (first : Kept c c') (second : Kept c' c'') : Kept c c'' where
  geometry := second.geometry.trans first.geometry
  seen := second.seen.trans first.seen
  models := first.models.trans second.models
  sized := second.sized ∘ first.sized
  regions side := Owner.trans (first.regions side) (second.regions side)

theorem regions_setRegion {side : Side} {r : Region β α} (later : Owner.Later (c.region side) r)
    (other : Side) : Owner.Later (c.region other) ((c.setRegion side r).region other) := by
  by_cases same : other = side
  · rwa [same, region_setRegion]
  · rw [region_setRegion_of_ne same]
    exact Owner.refl _

theorem Kept.setRegion {side : Side} {r : Region β α} (later : Owner.Later (c.region side) r) :
    Kept c (c.setRegion side r) where
  geometry := by rw [junction_setRegion]
  seen := by rw [junction_setRegion]
  models := by
    rw [junction_setRegion]
    exact .refl _
  sized := by
    rw [junction_setRegion]
    exact id
  regions := regions_setRegion later

theorem kept_lookupWith {read : String → CoupledRead β α (Field α)}
    (step : ∀ name c, Kept c (read name c).2) (name : String) (c : Coupled β α) :
    Kept c (lookupWith read name c).2 := by
  have answer : ∀ (inner : CoupledRead β α (Field α)) (view : Field α → Resolved α),
      ((inner >>= fun data => pure (some (view data))) c).2 = (inner c).2 := by
    intro inner view
    rcases ran : inner c with ⟨e | data, c'⟩
    · rw [CoupledRead.bind_of_error ran]
    · rw [CoupledRead.bind_of_ok ran]
      rfl
  unfold lookupWith
  change Kept c ((if c.junction.models.contains .node name then _ else _ : CoupledRead β α _) c).2
  split
  · rw [answer _ (⟨.node, ·⟩)]
    exact step name c
  · rcases Suffix.split? name with _ | ⟨base, side | i | side⟩
    case some.interfaceSide =>
      dsimp only
      split
      · rw [answer (onRegion side (Region.read .node base))
          fun values => ⟨.node, values.gather c.junction.chunking
            (c.junction.geometry.nodes side).toArray⟩]
        exact .setRegion (Region.leads_read _ _ _)
      · exact .refl c
    all_goals exact .refl c

/-- The pair while a model of the interface is being computed. -/
def marked (c : Coupled β α) (name : String) (m : Model β α) : Coupled β α :=
  { c with junction := { c.junction with
      models := c.junction.models.replace .node name { m with state := .computing } } }

def targetOf (c : Coupled β α) (name : String) (m : Model β α) : Target :=
  ⟨name, .node, c.junction.size, m.contact⟩

/-- The answers to what a computation asks when `depth` further ones may nest in it. -/
def lookupWithin : (depth : Nat) → String → StateM (Coupled β α) (LookupResult α)
  | 0, name => (throw (.cyclicDependency name) : CoupledRead β α (Option (Resolved α)))
  | depth + 1, name => lookupWith (readWithin depth) name

def concluded (c : Coupled β α) (target : Target) (outcome : Outcome α) :
    Except ModelError (Field α) × Coupled β α :=
  ((c.junction.models.finish target none outcome.result).1,
    { c with junction := { c.junction with
        models := (c.junction.models.finish target none outcome.result).2
        notes := c.junction.notes ++ outcome.remarks.map (⟨target.name, ·⟩) } })

def beginRead (name : String) : CoupledRead β α (Access β α) := fun c =>
  ((c.junction.models.begin .node name c.junction.size).1,
    { c with junction := { c.junction with
        models := (c.junction.models.begin .node name c.junction.size).2 } })

theorem readWithin_of_begin {result : Except ModelError (Field α)} {k : Nat}
    (began : c.junction.models.begin .node name c.junction.size =
      (result.map Access.ready, c.junction.models)) : readWithin k name c = (result, c) := by
  have start : beginRead name c = (result.map Access.ready, c) := by rw [beginRead, began]
  unfold readWithin
  cases result with
  | error e => exact CoupledRead.bind_of_error start
  | ok data => exact CoupledRead.bind_of_ok start

/-- The questions of a stale model are answered while it is marked. -/
theorem readWithin_of_stale {m : Model β α} {calculator : Calculator β α} {k : Nat}
    (found : c.junction.models.get? .node name = some m) (stale : m.state = .stale)
    (computed : m.source = .computed calculator) :
    readWithin k name c =
      let ran := (calculator.calculate c.junction.surroundings (c.targetOf name m)).runState
        (lookupWithin k) parameter? (c.marked name m)
      ran.2.concluded (c.targetOf name m) ran.1 := by
  have start : beginRead name c =
      (.ok (.compute calculator (c.targetOf name m)), c.marked name m) := by
    rw [beginRead, ModelStore.begin_of_stale found stale computed]
    rfl
  unfold readWithin
  refine (CoupledRead.bind_of_ok start).trans ?_
  cases k <;> rfl

theorem readWithin_kept (k : Nat) (name : String) (c : Coupled β α) :
    Kept c (readWithin k name c).2 ∧ ∀ data, (readWithin k name c).1 = .ok data →
      (readWithin k name c).2.junction.models.AtHand .node name data := by
  -- By the depth that is left: the questions of the calculation are answered with less.
  induction k using Nat.strongRecOn generalizing name c with
  | _ k ih =>
    rcases c.junction.models.begin_cases .node name with
      ⟨m, calculator, found, stale, computed⟩ | ⟨result, began⟩
    · rw [readWithin_of_stale found stale computed]
      have answers : ∀ name (c : Coupled β α), Kept c (lookupWithin k name c).2 := by
        intro name c
        cases k with
        | zero => exact .refl c
        | succ k => exact kept_lookupWith (fun name c => (ih k (by omega) name c).1) name c
      have ran : Kept (c.marked name m) ((calculator.calculate c.junction.surroundings
          (c.targetOf name m)).runState (lookupWithin k) parameter? (c.marked name m)).2 :=
        Query.runState_rel .refl (fun _ _ _ => .trans) answers
      revert ran
      generalize (calculator.calculate c.junction.surroundings (c.targetOf name m)).runState
        (lookupWithin k) parameter? (c.marked name m) = ran
      intro kept
      obtain ⟨marked, models⟩ := ModelStore.Kept.conclude found stale computed kept.models
        (ModelStore.checked (c.targetOf name m) none ran.1.result)
      have ended : ran.2.junction.models.conclude (c.targetOf name m) _ = _ :=
        ModelStore.conclude_of_found marked (ModelStore.checked (c.targetOf name m) none ran.1.result)
      simp only [concluded, ModelStore.finish, ended]
      refine ⟨⟨kept.geometry, kept.seen, models, fun sized => ?_, kept.regions⟩,
        fun data returned => ?_⟩
      · have fits : ∀ data, ModelStore.checked (c.targetOf name m) none ran.1.result = .ok data →
            data.size = ran.2.junction.domainSize .node := fun data checked =>
          (ModelStore.size_of_checked checked).trans (congrArg Interface.size kept.geometry).symm
        have stored : ((ran.2.junction.models.conclude (c.targetOf name m) _).2).Sized _ :=
          (kept.sized (sized.marked found)).conclude fits
        rwa [ended] at stored
      rw [returned]
      exact ⟨_, ModelStore.get?_replace_self marked, rfl, .inl rfl⟩
    · rw [readWithin_of_begin (began _)]
      refine ⟨.refl c, fun data returned => ?_⟩
      have ready := began c.junction.size
      exact ModelStore.atHand_of_begin <| (congrArg Prod.fst ready).trans <|
        congrArg (Except.map Access.ready) returned

/-! ## Values at hand -/

/-- A read would answer at once with these values, no region having changed. -/
def AtHand (c : Coupled β α) (name : String) (data : Field α) : Prop :=
  c.junction.seen = some c.fingerprints ∧ c.junction.models.AtHand .node name data

/-- The second pair of junction and regions is what the first becomes by reads. -/
structure Leads (c c' : Coupled β α) : Prop where
  geometry : c'.junction.geometry = c.junction.geometry
  declared : c'.junction.models.uncached = c.junction.models.uncached
  sized : c.junction.Sized → c'.junction.Sized
  regions : ∀ side, Owner.Later (c.region side) (c'.region side)
  atHand : ∀ name data, c.AtHand name data → c'.AtHand name data

instance : Owner (Coupled β α) where
  Later := Leads
  refl _ := ⟨rfl, rfl, id, fun _ => Owner.refl _, fun _ _ => id⟩
  trans first second := ⟨second.geometry.trans first.geometry,
    second.declared.trans first.declared, second.sized ∘ first.sized,
    fun side => Owner.trans (first.regions side) (second.regions side),
    fun name data => second.atHand name data ∘ first.atHand name data⟩

omit [Scalar α] in
/-- Regions that differ in what is cached are no changed ones. -/
theorem fingerprints_of_uncached_eq (same : ∀ side, (c'.region side).uncached = (c.region side).uncached) :
    c'.fingerprints = c.fingerprints := by
  have regions : ∀ side, (c'.region side).fingerprint = (c.region side).fingerprint := fun side =>
    Region.eq_of_uncached_eq (f := Region.fingerprint) (fun _ => rfl) (same side)
  exact Prod.ext (regions .first) (regions .second)

theorem Kept.fingerprints_eq (kept : Kept c c') : c'.fingerprints = c.fingerprints :=
  fingerprints_of_uncached_eq fun side => (kept.regions side).progress.declared

theorem Kept.leads (kept : Kept c c') : Owner.Later c c' where
  geometry := kept.geometry
  declared := kept.models.declared
  sized := kept.sized
  regions := kept.regions
  atHand _ _ := fun ⟨seen, m, found, value, current⟩ =>
    ⟨by rw [kept.seen, kept.fingerprints_eq, seen], m,
      kept.models.held found (current.imp (by simp +contextual) And.right), value, current⟩

omit [Scalar α] in
theorem seen_refresh (c : Coupled β α) : c.refresh.junction.seen = some c.refresh.fingerprints := by
  unfold refresh Junction.refresh
  split
  next seen => exact seen
  · rfl

omit [Scalar α] in
theorem refresh_of_seen (seen : c.junction.seen = some c.fingerprints) : c.refresh = c := by
  unfold refresh Junction.refresh
  rw [if_pos (show _ = some (_, _) from seen)]

omit [Scalar α] in
@[simp] theorem region_refresh (c : Coupled β α) (side : Side) : c.refresh.region side = c.region side := by
  cases side <;> rfl

omit [Scalar α] in
theorem declared_refresh (c : Coupled β α) :
    c.refresh.junction.models.uncached = c.junction.models.uncached := by
  have marks : ∀ (names : List String) (s : ModelStore β α),
      (names.foldl (·.markOld ·) s).uncached = s.uncached := by
    intro names
    induction names with
    | nil => exact fun _ => rfl
    | cons name rest ih => exact fun s => (ih _).trans ModelStore.uncached_markOld
  unfold refresh Junction.refresh
  split
  · rfl
  · exact marks _ _

omit [Scalar α] in
theorem sized_refresh (c : Coupled β α) (sized : c.junction.Sized) : c.refresh.junction.Sized := by
  have marks : ∀ (names : List String) (s : ModelStore β α), s.Sized c.junction.domainSize →
      (names.foldl (·.markOld ·) s).Sized c.junction.domainSize := by
    intro names
    induction names with
    | nil => exact fun _ => id
    | cons name rest ih => exact fun s sized => ih _ (sized.markOld name)
  unfold refresh Junction.refresh
  split
  · exact sized
  · exact marks _ _ sized

/-- Where the regions have changed, nothing was at hand. -/
theorem leads_refresh (c : Coupled β α) : Owner.Later c c.refresh where
  geometry := by
    unfold refresh Junction.refresh
    split <;> rfl
  declared := declared_refresh c
  sized := sized_refresh c
  regions side := by
    rw [region_refresh]
    exact Owner.refl _
  atHand name data atHand := by rwa [refresh_of_seen atHand.1]

theorem leads_read (c : Coupled β α) (name : String) : Owner.Later c (c.read name).2 :=
  Owner.trans (leads_refresh c) (readWithin_kept _ name _).1.leads

theorem leads_find (c : Coupled β α) (name : String) : Owner.Later c (c.find name).2 :=
  Owner.trans (leads_refresh c) (kept_lookupWith (fun name c => (readWithin_kept _ name c).1) name _).leads

theorem leads_setRegion {side : Side} {r : Region β α} (later : Owner.Later (c.region side) r) :
    Owner.Later c (c.setRegion side r) :=
  (Kept.setRegion later).leads

theorem read_of_atHand (atHand : c.AtHand name data) : c.read name = (.ok data, c) := by
  rw [read, refresh_of_seen atHand.1]
  exact readWithin_of_begin (ModelStore.begin_of_atHand atHand.2)

theorem atHand_of_read (ran : (c.read name).1 = .ok data) : (c.read name).2.AtHand name data := by
  obtain ⟨kept, atHand⟩ := readWithin_kept c.junction.models.models.size name c.refresh
  refine ⟨?_, atHand data ran⟩
  rw [read, kept.seen, seen_refresh, kept.fingerprints_eq]

theorem size_of_readWithin {k : Nat} (sized : c.junction.Sized)
    (ran : (readWithin k name c).1 = .ok data) : data.size = c.junction.size := by
  rcases c.junction.models.begin_cases .node name with
    ⟨m, calculator, found, stale, computed⟩ | ⟨result, began⟩
  · rw [readWithin_of_stale found stale computed] at ran
    exact ModelStore.size_of_checked (ModelStore.eq_ok_of_conclude ran)
  · rw [readWithin_of_begin (began _)] at ran
    have ready := congrArg Prod.fst (began c.junction.size)
    rw [show result = _ from ran] at ready
    exact sized.size_of_begin ready

theorem size_refresh (c : Coupled β α) : c.refresh.junction.size = c.junction.size :=
  congrArg Interface.size (leads_refresh c).geometry

/-- Every value that is read has one entry for every pair. -/
theorem size_of_read (sized : c.junction.Sized) (ran : (c.read name).1 = .ok data) :
    data.size = c.junction.size :=
  (size_of_readWithin (sized_refresh c sized) ran).trans (size_refresh c)

/-! ## Values of a model -/

def values (c : Coupled β α) (name : String) : Array α :=
  match (c.read name).1 with
  | .ok data => data.toArray
  | .error _ => #[]

/-- The value of a model at a pair, zero where there is none. -/
def valueAt (c : Coupled β α) (name : String) (i : Nat) : α := ((c.values name)[i]?).getD 0

theorem values_of_atHand (atHand : c.AtHand name data) : c.values name = data.toArray := by
  rw [values, read_of_atHand atHand]

theorem values_of_missing (missing : c.junction.models.contains .node name = false) :
    c.values name = #[] := by
  have none : c.refresh.junction.models.get? .node name = none := by
    rwa [← ModelStore.contains_of_uncached_eq (declared_refresh c), ModelStore.contains,
      Table.contains, Option.isSome_eq_false_iff, Option.isNone_iff_eq_none] at missing
  have failed : (c.read name).1 = .error (.missingModel .node name) :=
    congrArg Prod.fst (readWithin_of_begin (ModelStore.begin_of_missing none))
  rw [values, failed]

end Coupled

end FiniteVolume
