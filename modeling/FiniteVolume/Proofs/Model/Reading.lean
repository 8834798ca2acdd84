import FiniteVolume.Proofs.Model.Recomputation

/-!
One read of a region.

`readWithin_of_begin` and `readWithin_of_stale` say what a read does; everything else is derived from
them. A read changes cached values only and leaves the same models being computed (`Balanced`), and
the depth it is given makes no difference once it covers the models that are not being computed
(`readWithin_eq`).
-/
namespace FiniteVolume

variable {β α : Type}

/-! ## Running steps -/

namespace RegionRead

variable {ρ σ : Type} {a : RegionRead β α ρ} {f : ρ → RegionRead β α σ} {r r' : Region β α}

theorem bind_of_ok {x : ρ} (ran : a r = (.ok x, r')) : (a >>= f) r = f x r' := by
  change (ExceptT.bindCont f (a r).1 : StateM (Region β α) _) (a r).2 = _
  rw [ran]
  rfl

theorem bind_get {f : Region β α → RegionRead β α σ} : ((get : RegionRead β α _) >>= f) r = f r r := rfl

theorem bind_of_error {e : ModelError} (ran : a r = (.error e, r')) :
    (a >>= f) r = (.error e, r') := by
  change (ExceptT.bindCont f (a r).1 : StateM (Region β α) _) (a r).2 = _
  rw [ran]
  rfl

end RegionRead

/-! ## The store at both ends of a computation -/

def Model.concluded (m : Model β α) : Except ModelError (Field α) → Model β α
  | .ok data => { m with value := some data, state := .fresh }
  | .error _ => { m with value := none, state := .stale }

/-- How the cached part of a model may change while others are read: what is fresh stays, and what
was being computed or had no value is without a value when stale. -/
structure Model.Advances (m m' : Model β α) : Prop where
  kept : m.state = .fresh → m' = m
  cleared : m.state = .computing ∨ m.value = none → m'.state = .stale → m'.value = none

namespace Model

variable {m m' m'' : Model β α} {result : Except ModelError (Field α)}

@[simp] theorem source_concluded : (m.concluded result).source = m.source := by
  cases result <;> rfl

theorem state_concluded_ne_computing : (m.concluded result).state ≠ .computing := by
  cases result <;> simp [concluded]

theorem Advances.refl (m : Model β α) : m.Advances m where
  kept _ := rfl
  cleared before stale := before.resolve_left fun computing => by simp [stale] at computing

theorem Advances.trans (first : m.Advances m') (second : m'.Advances m'') : m.Advances m'' where
  kept fresh := by
    obtain rfl := first.kept fresh
    exact second.kept fresh
  cleared before stale := by
    cases state : m'.state with
    | computing => exact second.cleared (.inl state) stale
    | stale => exact second.cleared (.inr (first.cleared before state)) stale
    | fresh =>
      obtain rfl := second.kept state
      simp [stale] at state

theorem Advances.mark (stale : m.state = .stale) : m.Advances { m with state := .computing } where
  kept fresh := by simp [stale] at fresh
  cleared _ again := by simp at again

theorem Advances.conclude (computing : m.state = .computing)
    (result : Except ModelError (Field α)) : m.Advances (m.concluded result) where
  kept fresh := by simp [computing] at fresh
  cleared _ again := by
    cases result with
    | ok data => simp [concluded] at again
    | error e => rfl

end Model

namespace ModelStore

variable {s : ModelStore β α} {d : Domain} {name : String} {m : Model β α}

theorem conclude_of_found {target : Target} (found : s.get? target.domain target.name = some m)
    (result : Except ModelError (Field α)) :
    s.conclude target result = (result, s.replace target.domain target.name (m.concluded result)) := by
  unfold conclude
  rw [found]
  cases result <;> rfl

/-- A read either finds a stale computed model or is answered at once. -/
theorem begin_cases (s : ModelStore β α) (d : Domain) (name : String) :
    (∃ m calculator, s.get? d name = some m ∧ m.state = .stale ∧ m.source = .computed calculator) ∨
    ∃ result : Except ModelError (Field α),
      ∀ size, s.begin d name size = (result.map Access.ready, s) := by
  cases found : s.get? d name with
  | none => exact .inr ⟨.error (.missingModel d name), fun size => begin_of_missing found⟩
  | some m =>
    cases state : m.state with
    | computing => exact .inr ⟨.error (.cyclicDependency name), fun _ => begin_of_computing found state⟩
    | fresh =>
      refine .inr ⟨m.value.elim (.error (.missingModel d name)) .ok, fun size => ?_⟩
      cases h : m.source <;> cases value : m.value <;>
        simp [begin, found, state, h, value, Except.map]
    | stale =>
      cases source : m.source with
      | computed calculator => exact .inl ⟨m, calculator, rfl, state, source⟩
      | written =>
        refine .inr ⟨m.value.elim (.error (.missingModel d name)) .ok, fun size => ?_⟩
        cases value : m.value <;> simp [begin, found, state, source, value, Except.map]

end ModelStore

namespace Region

/-! ## What the declarations determine -/

section

variable {r r' : Region β α}

theorem eq_of_uncached_eq {τ : Type} {f : Region β α → τ} (insensitive : ∀ r, f r.uncached = f r)
    (same : r'.uncached = r.uncached) : f r' = f r := by
  rw [← insensitive r', same, insensitive]

theorem size_of_uncached_eq (same : r'.uncached = r.uncached) : r'.size = r.size :=
  eq_of_uncached_eq (fun _ => rfl) same

theorem surroundings_of_uncached_eq (same : r'.uncached = r.uncached) :
    r'.surroundings = r.surroundings :=
  eq_of_uncached_eq (fun _ => rfl) same

theorem parameter?_of_uncached_eq (same : r'.uncached = r.uncached) :
    r'.parameter? = r.parameter? :=
  eq_of_uncached_eq (fun _ => rfl) same

theorem contacts_of_uncached_eq (same : r'.uncached = r.uncached) : r'.contacts = r.contacts :=
  eq_of_uncached_eq (fun _ => rfl) same

variable [Scalar α]

theorem resolve?_uncached (r : Region β α) : r.uncached.resolve? = r.resolve? := by
  have contains : r.uncached.models.contains = r.models.contains :=
    contains_of_uncached_eq r.uncached_uncached
  funext name
  simp only [resolve?, ModelStore.domainOf?, contains]
  rfl

theorem resolve?_of_uncached_eq (same : r'.uncached = r.uncached) : r'.resolve? = r.resolve? :=
  eq_of_uncached_eq resolve?_uncached same

omit [Scalar α] in
theorem targetOf_of_uncached_eq (same : r'.uncached = r.uncached) : r'.targetOf = r.targetOf :=
  eq_of_uncached_eq (fun _ => rfl) same

theorem settle_of_uncached_eq (same : r'.uncached = r.uncached) : r'.settle = r.settle :=
  eq_of_uncached_eq (fun _ => rfl) same

end

/-! ## The equations of a read -/

variable [Scalar α] {limit : String → RegionRead β α (Option (Resolved α))} {r r' r₀ : Region β α}
  {d : Domain} {name : String} {m : Model β α} {calculator : Calculator β α} {k : Nat}

theorem lookupWith_of_unresolved {read : Domain → String → RegionRead β α (Field α)}
    (unresolved : r.resolve? name = none) : lookupWith read name r = (.ok none, r) := by
  unfold lookupWith
  rw [RegionRead.bind_get, unresolved]
  rfl

theorem lookupWith_of_resolved {read : Domain → String → RegionRead β α (Field α)}
    {found : Resolution α} (resolved : r.resolve? name = some found) :
    lookupWith read name r =
      ((read found.source.1 found.source.2 r).1.map fun data => some (found.answer data),
        (read found.source.1 found.source.2 r).2) := by
  unfold lookupWith
  rw [RegionRead.bind_get, resolved]
  rcases ran : read found.source.1 found.source.2 r with ⟨e | data, r'⟩
  · exact RegionRead.bind_of_error ran
  · exact RegionRead.bind_of_ok ran

/-- The answers to what a computation asks when `depth` further ones may nest in it. -/
def lookupWithin (limit : String → RegionRead β α (Option (Resolved α))) :
    (depth : Nat) → String → StateM (Region β α) (LookupResult α)
  | 0, name => limit name
  | depth + 1, name => lookupWith (readWithin limit depth) name

def marked (r : Region β α) (d : Domain) (name : String) (m : Model β α) : Region β α :=
  { r with models := r.models.replace d name { m with state := .computing } }

def concluded (r : Region β α) (target : Target) (outcome : Outcome α) (m : Model β α) :
    Region β α :=
  { r with
    models := r.models.replace target.domain target.name (m.concluded (r.settle target outcome))
    notes := r.notes ++ outcome.remarks.map (⟨target.name, ·⟩) }

omit [Scalar α] in
theorem beginRead_eq : beginRead d name r = ((r.models.begin d name (r.size d)).1,
    { r with models := (r.models.begin d name (r.size d)).2 }) := rfl

theorem endRead_eq {target : Target} {outcome : Outcome α} : endRead target outcome r =
    ((r.models.conclude target (r.settle target outcome)).1,
      { r with
        models := (r.models.conclude target (r.settle target outcome)).2
        notes := r.notes ++ outcome.remarks.map (⟨target.name, ·⟩) }) := rfl

theorem readWithin_of_begin {result : Except ModelError (Field α)}
    (began : r.models.begin d name (r.size d) = (result.map Access.ready, r.models)) :
    readWithin limit k d name r = (result, r) := by
  have start : beginRead d name r = (result.map Access.ready, r) := by
    rw [beginRead_eq, began]
  unfold readWithin
  cases result with
  | error e => exact RegionRead.bind_of_error start
  | ok data => exact RegionRead.bind_of_ok start

theorem readWithin_of_missing (missing : r.models.get? d name = none) :
    readWithin limit k d name r = (.error (.missingModel d name), r) :=
  readWithin_of_begin (ModelStore.begin_of_missing missing)

theorem readWithin_of_computing (found : r.models.get? d name = some m)
    (computing : m.state = .computing) :
    readWithin limit k d name r = (.error (.cyclicDependency name), r) :=
  readWithin_of_begin (ModelStore.begin_of_computing found computing)

theorem readWithin_of_fresh (found : r.models.get? d name = some m) (fresh : m.state = .fresh)
    {data : Field α} (value : m.value = some data) :
    readWithin limit k d name r = (.ok data, r) :=
  readWithin_of_begin (ModelStore.begin_of_fresh found fresh value)

theorem endRead_of_found {t : Target} (found : r.models.get? t.domain t.name = some m)
    (outcome : Outcome α) :
    endRead t outcome r = (r.settle t outcome, r.concluded t outcome m) := by
  rw [endRead_eq, ModelStore.conclude_of_found found]
  rfl

/-- The questions of a stale model are answered while it is marked. -/
theorem readWithin_of_stale (found : r.models.get? d name = some m) (stale : m.state = .stale)
    (computed : m.source = .computed calculator) :
    readWithin limit k d name r =
      let ran := (calculator.calculate r.surroundings (r.targetOf d name m)).runState
        (lookupWithin limit k) parameter? (r.marked d name m)
      endRead (r.targetOf d name m) ran.1 ran.2 := by
  have began : beginRead d name r =
      (.ok (.compute calculator (r.targetOf d name m)), r.marked d name m) := by
    rw [beginRead_eq, ModelStore.begin_of_stale found stale computed]
    rfl
  unfold readWithin
  rw [RegionRead.bind_of_ok began]
  cases k <;> rfl

/-! ## Models being computed -/

def OnStack (r : Region β α) (d : Domain) (name : String) : Prop :=
  r.models.state? d name = some .computing

instance : Decidable (r.OnStack d name) := inferInstanceAs (Decidable (_ = _))

section

omit [Scalar α]

theorem onStack_iff :
    r.OnStack d name ↔ ∃ m, r.models.get? d name = some m ∧ m.state = .computing := by
  rw [OnStack, ModelStore.state?, Option.map_eq_some_iff]

variable {d' : Domain} {name' : String}

theorem get?_marked (found : r.models.get? d name = some m) :
    (r.marked d name m).models.get? d' name' =
      if (d', name') = (d, name) then some { m with state := .computing }
      else r.models.get? d' name' := by
  rw [marked, ModelStore.get?_replace]
  split
  next same => cases same; rw [found]; rfl
  · rfl

theorem onStack_marked (found : r.models.get? d name = some m) :
    (r.marked d name m).OnStack d' name' ↔ (d', name') = (d, name) ∨ r.OnStack d' name' := by
  rw [onStack_iff, get?_marked found, onStack_iff]
  by_cases same : (d', name') = (d, name) <;> simp [same]

/-- Models that no computation has reached. -/
def waiting (r : Region β α) : Nat :=
  (r.models.models.keys.filter fun key => ¬r.OnStack key.1 key.2).length

theorem waiting_le_size (r : Region β α) : r.waiting ≤ r.models.models.size :=
  r.models.waiting_le_size

theorem waiting_congr (keys : r'.models.models.keys = r.models.models.keys)
    (stack : ∀ d name, r'.OnStack d name ↔ r.OnStack d name) : r'.waiting = r.waiting := by
  unfold waiting
  rw [keys]
  simp only [stack]

theorem waiting_marked_lt (found : r.models.get? d name = some m) (stale : m.state = .stale) :
    (r.marked d name m).waiting < r.waiting :=
  ModelStore.waiting_marked_lt found stale

end

/-! ## What a read leaves as it is -/

/-- The second region follows the first in the course of a read. -/
structure Progress (r r' : Region β α) : Prop where
  declared : r'.uncached = r.uncached
  advances : ∀ {d name m m'}, r.models.get? d name = some m → r'.models.get? d name = some m' →
    m.Advances m'

/-- The second region is that after reads begun in the first. -/
structure Balanced (r r' : Region β α) : Prop extends Progress r r' where
  stack : ∀ d name, r'.OnStack d name ↔ r.OnStack d name

section

omit [Scalar α]

theorem Progress.refl (r : Region β α) : Progress r r where
  declared := rfl
  advances found found' := by
    cases found.symm.trans found'
    exact .refl _

theorem Progress.trans (first : Progress r r') (second : Progress r' r₀) : Progress r r₀ where
  declared := second.declared.trans first.declared
  advances found found' := by
    obtain ⟨m, between, -⟩ := get?_of_uncached_eq first.declared found
    exact (first.advances found between).trans (second.advances between found')

theorem Balanced.refl (r : Region β α) : Balanced r r := ⟨.refl r, fun _ _ => Iff.rfl⟩

theorem Balanced.trans (first : Balanced r r') (second : Balanced r' r₀) : Balanced r r₀ :=
  ⟨first.toProgress.trans second.toProgress,
    fun d name => (second.stack d name).trans (first.stack d name)⟩

theorem Balanced.waiting_eq (balanced : Balanced r r') : r'.waiting = r.waiting :=
  waiting_congr (keys_of_uncached_eq balanced.declared) balanced.stack

theorem Progress.marked (found : r.models.get? d name = some m) (stale : m.state = .stale)
    (computed : m.source = .computed calculator) : Progress r (r.marked d name m) where
  declared := by
    have same := ModelStore.uncached_replace found (m.uncached_cache computed .computing m.value)
    rw [uncached, Region.marked, same]
    rfl
  advances {d' name' _ _} before after := by
    rw [get?_marked found] at after
    split at after
    next same =>
      cases same
      cases after
      cases found.symm.trans before
      exact .mark stale
    · cases before.symm.trans after
      exact .refl _

end

theorem get?_concluded {t : Target} {outcome : Outcome α} {d' : Domain} {name' : String}
    (found : r.models.get? t.domain t.name = some m) :
    (r.concluded t outcome m).models.get? d' name' =
      if (d', name') = (t.domain, t.name) then
        some (m.concluded (r.settle t outcome))
      else r.models.get? d' name' := by
  rw [concluded, ModelStore.get?_replace]
  split
  next same => cases same; rw [found]; rfl
  · rfl

theorem onStack_concluded {t : Target} {outcome : Outcome α} {d' : Domain} {name' : String}
    (found : r.models.get? t.domain t.name = some m) :
    (r.concluded t outcome m).OnStack d' name' ↔
      (d', name') ≠ (t.domain, t.name) ∧ r.OnStack d' name' := by
  rw [onStack_iff, get?_concluded found, onStack_iff]
  by_cases same : (d', name') = (t.domain, t.name)
  · simp [same, Model.state_concluded_ne_computing]
  · simp [same]

theorem Progress.concluded {t : Target} {outcome : Outcome α}
    (found : r.models.get? t.domain t.name = some m) (computing : m.state = .computing)
    (computed : m.source = .computed calculator) : Progress r (r.concluded t outcome m) where
  declared := by
    have cache : (m.concluded (r.settle t outcome)).uncached = m.uncached := by
      cases r.settle t outcome <;> exact m.uncached_cache computed _ _
    have same := ModelStore.uncached_replace found cache
    rw [uncached, Region.concluded, same]
    rfl
  advances {d' name' _ _} before after := by
    rw [get?_concluded found] at after
    split at after
    next same =>
      cases same
      cases after
      cases found.symm.trans before
      exact .conclude computing _
    · cases before.symm.trans after
      exact .refl _

omit [Scalar α] in
/-- The model under computation is where its calculation ends. -/
theorem Balanced.get?_marked (ran : Balanced (r.marked d name m) r')
    (found : r.models.get? d name = some m) (computed : m.source = .computed calculator) :
    ∃ m', r'.models.get? d name = some m' ∧ m'.state = .computing ∧
      m'.source = .computed calculator ∧ m'.contact = m.contact := by
  obtain ⟨m', found', same⟩ :=
    get?_of_uncached_eq ran.declared ((Region.get?_marked found).trans (if_pos rfl))
  have onStack := (ran.stack d name).mpr ((onStack_marked found).mpr (.inl rfl))
  obtain ⟨_, again, computing⟩ := onStack_iff.mp onStack
  cases found'.symm.trans again
  have contact := Model.contact_of_uncached same
  exact ⟨m', found', computing, (Model.source_of_uncached same).trans computed, contact⟩

theorem Balanced.progress_endRead (ran : Balanced (r.marked d name m) r')
    (found : r.models.get? d name = some m) (computed : m.source = .computed calculator)
    (outcome : Outcome α) : Progress r' (Region.endRead (r.targetOf d name m) outcome r').2 := by
  obtain ⟨m', found', computing, computed', -⟩ := ran.get?_marked found computed
  rw [endRead_of_found (t := r.targetOf d name m) found']
  exact .concluded found' computing computed'

/-- Reads during the calculation are undone by its end, but for what they cached. -/
theorem Balanced.endRead (ran : Balanced (r.marked d name m) r')
    (found : r.models.get? d name = some m) (stale : m.state = .stale)
    (computed : m.source = .computed calculator) (outcome : Outcome α) :
    Balanced r (endRead (r.targetOf d name m) outcome r').2 := by
  have start : Progress r (r.marked d name m) := .marked found stale computed
  refine ⟨(start.trans ran.toProgress).trans (ran.progress_endRead found computed outcome), ?_⟩
  intro d' name'
  obtain ⟨m', found', -⟩ := ran.get?_marked found computed
  rw [endRead_of_found (t := r.targetOf d name m) found', onStack_concluded found', ran.stack,
    onStack_marked found]
  by_cases same : (d', name') = (d, name)
  · cases same
    simp [targetOf, onStack_iff, found, stale]
  · simp [targetOf, same]

theorem Balanced.endRead_fst (ran : Balanced (r.marked d name m) r')
    (found : r.models.get? d name = some m) (computed : m.source = .computed calculator)
    (outcome : Outcome α) :
    (Region.endRead (r.targetOf d name m) outcome r').1 = r'.settle (r.targetOf d name m) outcome := by
  obtain ⟨m', found', -⟩ := ran.get?_marked found computed
  rw [endRead_of_found (t := r.targetOf d name m) found']

theorem lookupWith_rel {R : Region β α → Region β α → Prop} (refl : R r r)
    {read : Domain → String → RegionRead β α (Field α)} (step : ∀ d name, R r (read d name r).2) :
    R r (lookupWith read name r).2 := by
  cases resolved : r.resolve? name with
  | none => rwa [lookupWith_of_unresolved resolved]
  | some found => rw [lookupWith_of_resolved resolved]; exact step _ _

/-- What holds of a calculation from its start to its end holds of every read. -/
theorem readWithin_rel {R : Region β α → Region β α → Prop} (refl : ∀ r, R r r)
    (trans : ∀ r r' r'', R r r' → R r' r'' → R r r'') (limits : ∀ name r, R r (limit name r).2)
    (calculation : ∀ r r' d name m calculator outcome, r.models.get? d name = some m →
      m.state = .stale → m.source = .computed calculator → R (r.marked d name m) r' →
        R r (endRead (r.targetOf d name m) outcome r').2)
    (k : Nat) (d : Domain) (name : String) (r : Region β α) : R r (readWithin limit k d name r).2 := by
  induction k using Nat.strongRecOn generalizing d name r with
  | _ k ih =>
    rcases r.models.begin_cases d name with ⟨m, calculator, found, stale, computed⟩ | ⟨result, began⟩
    · rw [readWithin_of_stale found stale computed]
      have answers : ∀ name r, R r (lookupWithin limit k name r).2 := by
        intro name r
        cases k with
        | zero => exact limits name r
        | succ k => exact lookupWith_rel (refl r) fun d name => ih k (by omega) d name r
      exact calculation _ _ _ _ _ _ _ found stale computed (Query.runState_rel refl trans answers)
    · rw [readWithin_of_begin (began _)]
      exact refl r

omit [Scalar α] in
/-- A read that can nest deep enough computes a stale model with depth to spare, or is answered at
once. -/
theorem steps_of_enough (enough : r.waiting ≤ k) (d : Domain) (name : String) :
    (∃ m calculator k', k = k' + 1 ∧ r.models.get? d name = some m ∧ m.state = .stale ∧
      m.source = .computed calculator ∧ (r.marked d name m).waiting ≤ k') ∨
    ∃ result : Except ModelError (Field α),
      r.models.begin d name (r.size d) = (result.map Access.ready, r.models) := by
  rcases r.models.begin_cases d name with ⟨m, calculator, found, stale, computed⟩ | ⟨result, began⟩
  · have fewer := waiting_marked_lt found stale
    exact .inl ⟨m, calculator, k - 1, by omega, found, stale, computed, by omega⟩
  · exact .inr ⟨result, began _⟩

omit [Scalar α] in
theorem runState_balanced {onLookup : String → StateM (Region β α) (LookupResult α)} {ρ : Type}
    {q : Query β α ρ} (step : ∀ name s, s.waiting ≤ k → Balanced s (onLookup name s).2)
    (enough : r.waiting ≤ k) : Balanced r (q.runState onLookup parameter? r).2 := by
  refine Query.runState_rel (R := fun s t => s.waiting ≤ k → Balanced s t) ?_ ?_ step enough
  · exact fun s _ => .refl s
  · intro s t u first second within
    have between := first within
    exact between.trans (second (between.waiting_eq ▸ within))

/-- A read that can nest deep enough undoes every mark it makes. -/
theorem readWithin_balanced (enough : r.waiting ≤ k) :
    Balanced r (readWithin limit k d name r).2 := by
  induction k using Nat.strongRecOn generalizing r d name with
  | _ k ih =>
    rcases steps_of_enough enough d name with
      ⟨m, calculator, k', rfl, found, stale, computed, within⟩ | ⟨result, began⟩
    · rw [readWithin_of_stale found stale computed]
      have step : ∀ name s, s.waiting ≤ k' → Balanced s (lookupWithin limit (k' + 1) name s).2 :=
        fun name s within => lookupWith_rel (.refl s) fun d name => ih k' (by omega) within
      exact (runState_balanced step within).endRead found stale computed _
    · rw [readWithin_of_begin began]
      exact .refl r

theorem lookupWithin_balanced (enough : r.waiting ≤ k) :
    Balanced r (lookupWithin limit (k + 1) name r).2 :=
  lookupWith_rel (.refl r) fun _ _ => readWithin_balanced enough

/-- The calculation of a model undoes every mark but that of the model itself. -/
theorem calculate_balanced (limit : String → RegionRead β α (Option (Resolved α)))
    (calculator : Calculator β α) (within : (r.marked d name m).waiting ≤ k) :
    Balanced (r.marked d name m) ((calculator.calculate r.surroundings
      (r.targetOf d name m)).runState (lookupWithin limit (k + 1)) parameter?
        (r.marked d name m)).2 :=
  runState_balanced (fun _ _ => lookupWithin_balanced) within

theorem readWithin_of_stale_fst (found : r.models.get? d name = some m)
    (stale : m.state = .stale) (computed : m.source = .computed calculator)
    (within : (r.marked d name m).waiting ≤ k) :
    (readWithin limit (k + 1) d name r).1 =
      let ran := (calculator.calculate r.surroundings (r.targetOf d name m)).runState
        (lookupWithin limit (k + 1)) parameter? (r.marked d name m)
      ran.2.settle (r.targetOf d name m) ran.1 := by
  rw [readWithin_of_stale found stale computed]
  exact (calculate_balanced limit calculator within).endRead_fst found computed _

/-- Depth that covers the waiting models is never used up: the limit has no part in the read. -/
theorem readWithin_eq {limit' : String → RegionRead β α (Option (Resolved α))} {k' : Nat}
    (enough : r.waiting ≤ k) (enough' : r.waiting ≤ k') :
    readWithin limit k d name r = readWithin limit' k' d name r := by
  induction k using Nat.strongRecOn generalizing r d name k' with
  | _ k ih =>
    rcases steps_of_enough enough d name with
      ⟨m, calculator, i, rfl, found, stale, computed, within⟩ | ⟨result, began⟩
    · have fewer := waiting_marked_lt found stale
      obtain ⟨i', rfl⟩ : ∃ i', k' = i' + 1 := ⟨k' - 1, by omega⟩
      rw [readWithin_of_stale found stale computed, readWithin_of_stale found stale computed]
      have same : ∀ name s, s.waiting ≤ i ∧ s.waiting ≤ i' →
          lookupWithin limit (i + 1) name s = lookupWithin limit' (i' + 1) name s := by
        intro name s within
        cases resolved : s.resolve? name with
        | none => simp only [lookupWithin, lookupWith_of_unresolved resolved]
        | some found =>
          simp only [lookupWithin, lookupWith_of_resolved resolved]
          rw [ih i (by omega) within.1 within.2]
      have keeps : ∀ name s, s.waiting ≤ i ∧ s.waiting ≤ i' →
          (lookupWithin limit (i + 1) name s).2.waiting ≤ i ∧
            (lookupWithin limit (i + 1) name s).2.waiting ≤ i' := by
        intro name s within
        rwa [(lookupWithin_balanced within.1).waiting_eq]
      have start : (r.marked d name m).waiting ≤ i ∧ (r.marked d name m).waiting ≤ i' := by omega
      rw [Query.runState_congr (I := fun s => s.waiting ≤ i ∧ s.waiting ≤ i') start same keeps]
    · rw [readWithin_of_begin began, readWithin_of_begin began]

end Region

end FiniteVolume
