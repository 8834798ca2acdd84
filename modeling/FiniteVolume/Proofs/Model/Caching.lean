import FiniteVolume.Proofs.Expression.Questions
import FiniteVolume.Proofs.Field.Elements
import FiniteVolume.Proofs.Model.Reading

/-!
What a read returns and caches.

`Underway` is the invariant of a read: every fresh model has the values that recomputation in the
region before the read gives. A read keeps it, and returns such values itself unless it meets a
cycle (`Underway.read`). When it is over, the model it is about is fresh with the values returned, or
stale without a value (`Underway.ended`).
-/
namespace FiniteVolume

variable {β α : Type} [Scalar α]

/-! ## Checking what was calculated -/

namespace ModelStore

variable {target : Target} {nodes : Option (List Nat)} {result : Except ModelError (Field α)}
  {data : Field α}

theorem checked_of_size_eq (fits : data.size = target.size) :
    checked target nodes (.ok data) = .ok (nodes.elim data data.restrict) := by
  cases nodes <;> simp [checked, bind, Except.bind, fits, pure, Except.pure]

theorem checked_of_size_ne (differs : data.size ≠ target.size) :
    checked target nodes (.ok data) =
      .error (.lengthMismatch target.name target.size data.size) := by
  simp [checked, bind, Except.bind, differs, throw, throwThe, MonadExceptOf.throw]

theorem size_of_checked (passed : checked target nodes result = .ok data) :
    data.size = target.size := by
  cases result with
  | error e => cases passed
  | ok values =>
    by_cases fits : values.size = target.size
    · rw [checked_of_size_eq fits] at passed
      cases nodes with
      | none => exact Except.ok.inj passed ▸ fits
      | some keep => exact Except.ok.inj passed ▸ (values.size_restrict keep).trans fits
    · rw [checked_of_size_ne fits] at passed
      cases passed

theorem cycleOf_checked : cycleOf (checked target nodes result) = cycleOf result := by
  cases result with
  | error e => rfl
  | ok values =>
    by_cases fits : values.size = target.size
    · rw [checked_of_size_eq fits]
      rfl
    · rw [checked_of_size_ne fits]
      rfl

end ModelStore

namespace Region

variable {limit : String → RegionRead β α (Option (Resolved α))} {r r' r₀ : Region β α}
  {d : Domain} {name : String} {m : Model β α} {calculator : Calculator β α} {k : Nat}
  {target : Target} {outcome : Outcome α}

theorem size_of_settle {data : Field α} (settled : r.settle target outcome = .ok data) :
    data.size = target.size := by
  unfold settle at settled
  cases nodes : r.restriction target.contact with
  | error e => rw [nodes] at settled; cases settled
  | ok nodes' => rw [nodes] at settled; exact ModelStore.size_of_checked settled

/-- Where the contact exists, only the calculation reports a cycle. -/
theorem cycleOf_settle
    (attached : ∀ contact, target.contact = some contact → r.contacts.contains contact = true) :
    cycleOf (r.settle target outcome) = cycleOf outcome.result := by
  have restricted : ∃ nodes, r.restriction target.contact = .ok nodes := by
    unfold restriction
    cases contact : target.contact with
    | none => exact ⟨none, rfl⟩
    | some name =>
      obtain ⟨found, attached⟩ := Option.isSome_iff_exists.mp (attached name contact)
      exact ⟨some found.nodes, by simp [attached]⟩
  obtain ⟨nodes, restricted⟩ := restricted
  unfold settle
  rw [restricted]
  exact ModelStore.cycleOf_checked

/-! ## What a read returns -/

/-- Computed models report the cycles they meet, and are restricted to contacts that exist. -/
structure WellDeclared (r : Region β α) : Prop where
  faithful : ∀ {d name m calculator}, r.models.get? d name = some m →
    m.source = .computed calculator → calculator.Faithful
  attached : ∀ {d name m contact}, r.models.get? d name = some m → m.contact = some contact →
    r.contacts.contains contact = true

/-- The second region is reached by reads of the first, and its fresh models have the values that
the first yields. -/
structure Underway (r₀ r : Region β α) : Prop extends Progress r₀ r where
  written : ∀ {d name m}, r.models.get? d name = some m → m.source = .written → m.state = .fresh
  current : ∀ {d name m}, r.models.get? d name = some m → m.state = .fresh →
    ∃ data, m.value = some data ∧ data.size = r.size d ∧ r₀.Yields d name (.ok data)

theorem Underway.cases (underway : Underway r₀ r) (d : Domain) (name : String) :
    r.models.get? d name = none ∨
    (∃ m data, r.models.get? d name = some m ∧ m.state = .fresh ∧ m.value = some data) ∨
    (∃ m, r.models.get? d name = some m ∧ m.state = .computing) ∨
    ∃ m calculator, r.models.get? d name = some m ∧ m.state = .stale ∧
      m.source = .computed calculator := by
  cases found : r.models.get? d name with
  | none => exact .inl rfl
  | some m =>
    cases state : m.state with
    | fresh =>
      obtain ⟨data, value, -⟩ := underway.current found state
      exact .inr (.inl ⟨m, data, rfl, state, value⟩)
    | computing => exact .inr (.inr (.inl ⟨m, rfl, state⟩))
    | stale =>
      cases source : m.source with
      | written =>
        have fresh := underway.written found source
        simp [state] at fresh
      | computed calculator => exact .inr (.inr (.inr ⟨m, calculator, rfl, state, source⟩))

/-! ## During a read -/

theorem Underway.refl
    (written : ∀ {d name m}, r.models.get? d name = some m → m.source = .written → m.state = .fresh)
    (sized : ∀ {d name m}, r.models.get? d name = some m → m.state = .fresh →
      ∃ data, m.value = some data ∧ data.size = r.size d) : Underway r r where
  toProgress := .refl r
  written := written
  current found fresh := by
    obtain ⟨data, value, size⟩ := sized found fresh
    exact ⟨data, value, size, 0, valueWithin_of_fresh found fresh value⟩

theorem Underway.mark (underway : Underway r₀ r) (found : r.models.get? d name = some m)
    (stale : m.state = .stale) (computed : m.source = .computed calculator) :
    Underway r₀ (r.marked d name m) where
  toProgress := underway.toProgress.trans (.marked found stale computed)
  written found' written := by
    rw [get?_marked found] at found'
    split at found'
    · cases found'
      simp [computed] at written
    · exact underway.written found' written
  current found' fresh := by
    rw [get?_marked found] at found'
    split at found'
    · cases found'
      simp at fresh
    · exact underway.current found' fresh

/-- A model that is stale during a read has a calculation to do before it, with the same target. -/
theorem Underway.pending (underway : Underway r₀ r) (found : r.models.get? d name = some m)
    (stale : m.state = .stale) (computed : m.source = .computed calculator) :
    ∃ m₀, r₀.models.get? d name = some m₀ ∧ m₀.pending? = some calculator ∧
      r₀.targetOf d name m₀ = r.targetOf d name m := by
  obtain ⟨m₀, found₀, same⟩ := get?_of_uncached_eq underway.declared.symm found
  have source := (Model.source_of_uncached same).trans computed
  refine ⟨m₀, found₀, Model.pending?_eq_some_iff.mpr ⟨source, fun fresh => ?_⟩, ?_⟩
  · cases (underway.advances found₀ found).kept fresh
    simp [stale] at fresh
  · rw [targetOf_of_uncached_eq underway.declared.symm]
    simp [targetOf, Model.contact_of_uncached same]

/-- Ending a calculation keeps the invariant when the values, if there are any, are those to be
cached. -/
theorem Underway.conclude (underway : Underway r₀ r') (ran : Balanced (r.marked d name m) r')
    (found : r.models.get? d name = some m) (computed : m.source = .computed calculator)
    (yields : ∀ data, r'.settle (r.targetOf d name m) outcome = .ok data →
      r₀.Yields d name (.ok data)) :
    Underway r₀ (Region.endRead (r.targetOf d name m) outcome r').2 := by
  have ended := ran.progress_endRead found computed outcome
  obtain ⟨m', found', -, computed', -⟩ := ran.get?_marked found computed
  rw [endRead_of_found (t := r.targetOf d name m) found'] at ended ⊢
  refine ⟨underway.toProgress.trans ended, ?_, ?_⟩
  · intro d' name' m'' found'' written
    rw [get?_concluded found'] at found''
    split at found''
    · cases found''
      simp [computed'] at written
    · exact underway.written found'' written
  · intro d' name' m'' found'' fresh
    rw [get?_concluded found'] at found''
    split at found''
    next same =>
      cases same
      cases found''
      cases settled : r'.settle (r.targetOf d name m) outcome with
      | error e => simp [settled, Model.concluded] at fresh
      | ok data =>
        refine ⟨data, rfl, ?_, yields data settled⟩
        rw [size_of_settle settled, size_of_uncached_eq ended.declared,
          size_of_uncached_eq ran.declared]
        rfl
    · exact underway.current found'' fresh

/-- An answer during a read: it keeps the invariant and, unless it reports a cycle, is the answer of
the region before. -/
structure Sound (r₀ s : Region β α) (name : String) (ran : LookupResult α × Region β α) : Prop where
  balanced : Balanced s ran.2
  underway : Underway r₀ ran.2
  answers : cycleOf ran.1 = none → r₀.Answers name ran.1

theorem Underway.lookup (underway : Underway r₀ r)
    {read : Domain → String → RegionRead β α (Field α)}
    (balanced : ∀ d name, Balanced r (read d name r).2)
    (sound : ∀ d name, Underway r₀ (read d name r).2 ∧
      (cycleOf (read d name r).1 = none → r₀.Yields d name (read d name r).1)) :
    Sound r₀ r name (lookupWith read name r) := by
  have resolve := congrFun (resolve?_of_uncached_eq underway.declared) name
  cases resolved : r.resolve? name with
  | none =>
    rw [lookupWith_of_unresolved resolved]
    exact ⟨.refl r, underway, fun _ => answers_of_unresolved (resolve.symm.trans resolved)⟩
  | some found =>
    rw [lookupWith_of_resolved resolved]
    refine ⟨balanced _ _, (sound _ _).1, fun acyclic => ?_⟩
    rw [cycleOf_map] at acyclic
    exact answers_of_yields (resolve.symm.trans resolved) ((sound _ _).2 acyclic)

def SoundWithin (r₀ : Region β α) (k : Nat)
    (onLookup : String → StateM (Region β α) (LookupResult α)) : Prop :=
  ∀ name s, s.waiting ≤ k → Underway r₀ s → Sound r₀ s name (onLookup name s)

structure During (r₀ r : Region β α) (d : Domain) (name : String) (m : Model β α)
    (s : Region β α) : Prop where
  balanced : Balanced (r.marked d name m) s
  underway : Underway r₀ s

section

variable {onLookup : String → StateM (Region β α) (LookupResult α)} {s : Region β α}

theorem During.sound (during : During r₀ r d name m s) (sound : SoundWithin r₀ k onLookup)
    (enough : (r.marked d name m).waiting ≤ k) (asked : String) :
    Sound r₀ s asked (onLookup asked s) :=
  sound asked s (during.balanced.waiting_eq ▸ enough) during.underway

theorem During.lookup (during : During r₀ r d name m s) (sound : SoundWithin r₀ k onLookup)
    (enough : (r.marked d name m).waiting ≤ k) (asked : String) :
    During r₀ r d name m (onLookup asked s).2 where
  balanced := during.balanced.trans (during.sound sound enough asked).balanced
  underway := (during.sound sound enough asked).underway

variable (underway : Underway r₀ r) (found : r.models.get? d name = some m)
  (stale : m.state = .stale) (computed : m.source = .computed calculator)
  (sound : SoundWithin r₀ k onLookup) (enough : (r.marked d name m).waiting ≤ k)

include underway found stale computed sound enough

theorem Underway.during_of_mem_log {ρ : Type} {q : Query β α ρ} :
    ∀ asked ∈ q.log onLookup parameter? (r.marked d name m), During r₀ r d name m asked.2 :=
  fun asked member =>
    Query.rel_of_mem_log (R := fun s t => During r₀ r d name m s → During r₀ r d name m t)
      (fun _ => id) (fun _ _ _ first second => second ∘ first)
      (fun asked _ during => during.lookup sound enough asked) asked member
      ⟨.refl _, underway.mark found stale computed⟩

theorem Underway.during_run {ρ : Type} {q : Query β α ρ} :
    During r₀ r d name m (q.runState onLookup parameter? (r.marked d name m)).2 :=
  Query.runState_rel (R := fun s t => During r₀ r d name m s → During r₀ r d name m t)
    (fun _ => id) (fun _ _ _ first second => second ∘ first)
    (fun asked _ during => during.lookup sound enough asked)
    ⟨.refl _, underway.mark found stale computed⟩

variable (declared : r₀.WellDeclared)

include declared

/-- A model ends with the first cycle among the answers to its questions. -/
theorem Underway.cycleOf_settle :
    let q := calculator.calculate r.surroundings (r.targetOf d name m)
    let ran := q.runState onLookup parameter? (r.marked d name m)
    cycleOf (ran.2.settle (r.targetOf d name m) ran.1) =
      (q.log onLookup parameter? (r.marked d name m)).findSome? (Query.cycleIn onLookup) := by
  intro q ran
  obtain ⟨m₀, found₀, pending, target⟩ := underway.pending found stale computed
  have after : During r₀ r d name m ran.2 :=
    underway.during_run found stale computed sound enough
  have attached : ∀ contact, (r.targetOf d name m).contact = some contact →
      ran.2.contacts.contains contact = true := by
    rw [← target, contacts_of_uncached_eq after.underway.declared]
    exact fun contact => declared.attached found₀
  have meets := declared.faithful found₀ (Model.pending?_eq_some_iff.mp pending).1
    r.surroundings (r.targetOf d name m)
  rw [Region.cycleOf_settle attached, meets.post_runState, Option.none_or]

/-- Without a cycle the calculation returns what the region before yields. -/
theorem Underway.yields_settle :
    let ran := (calculator.calculate r.surroundings (r.targetOf d name m)).runState onLookup
      parameter? (r.marked d name m)
    cycleOf (ran.2.settle (r.targetOf d name m) ran.1) = none →
      r₀.Yields d name (ran.2.settle (r.targetOf d name m) ran.1) := by
  intro ran acyclic
  obtain ⟨m₀, found₀, pending, target⟩ := underway.pending found stale computed
  have after : During r₀ r d name m ran.2 :=
    underway.during_run found stale computed sound enough
  rw [underway.cycleOf_settle found stale computed sound enough declared] at acyclic
  have meets := declared.faithful found₀ (Model.pending?_eq_some_iff.mp pending).1
    r.surroundings (r.targetOf d name m)
  have returns : (calculator.calculate r₀.surroundings (r₀.targetOf d name m₀)).Returns
      r₀.Answers r₀.parameter? ran.1 := by
    rw [← surroundings_of_uncached_eq underway.declared, target]
    exact Query.returns_of_acyclic (I := During r₀ r d name m) meets
      ⟨.refl _, underway.mark found stale computed⟩
      (fun s during => parameter?_of_uncached_eq during.underway.declared)
      (fun asked s during => during.lookup sound enough asked)
      (fun asked s _ during => (during.sound sound enough asked).answers)
      (List.findSome?_eq_none_iff.mp acyclic)
  rw [settle_of_uncached_eq after.underway.declared, ← target]
  exact yields_of_returns found₀ pending returns

theorem Underway.compute :
    let ran := (calculator.calculate r.surroundings (r.targetOf d name m)).runState onLookup
      parameter? (r.marked d name m)
    let ended := Region.endRead (r.targetOf d name m) ran.1 ran.2
    Underway r₀ ended.2 ∧ (cycleOf ended.1 = none → r₀.Yields d name ended.1) := by
  intro ran ended
  have after : During r₀ r d name m ran.2 :=
    underway.during_run found stale computed sound enough
  have yields := underway.yields_settle found stale computed sound enough declared
  constructor
  · refine after.underway.conclude after.balanced found computed fun data settled => ?_
    exact settled ▸ yields (by rw [settled]; rfl)
  · rw [after.balanced.endRead_fst found computed]
    exact yields

end

/-- A read keeps what is fresh current, and without a cycle it returns what the region before
yields. -/
theorem Underway.read (underway : Underway r₀ r) (declared : r₀.WellDeclared)
    (enough : r.waiting ≤ k) (d : Domain) (name : String) :
    Underway r₀ (readWithin limit k d name r).2 ∧
      (cycleOf (readWithin limit k d name r).1 = none →
        r₀.Yields d name (readWithin limit k d name r).1) := by
  induction k using Nat.strongRecOn generalizing r d name with
  | _ k ih =>
    rcases underway.cases d name with
      missing | ⟨m, data, found, fresh, value⟩ | ⟨m, found, computing⟩ |
      ⟨m, calculator, found, stale, computed⟩
    · rw [readWithin_of_missing missing]
      have missing₀ := missing_of_uncached_eq underway.declared.symm missing
      exact ⟨underway, fun _ => ⟨0, valueWithin_of_missing missing₀⟩⟩
    · rw [readWithin_of_fresh found fresh value]
      obtain ⟨data', value', -, yields⟩ := underway.current found fresh
      cases value.symm.trans value'
      exact ⟨underway, fun _ => yields⟩
    · rw [readWithin_of_computing found computing]
      exact ⟨underway, fun acyclic => by simp [cycleOf, ModelError.cycle?] at acyclic⟩
    · have fewer := waiting_marked_lt found stale
      obtain ⟨i, rfl⟩ : ∃ i, k = i + 1 := ⟨k - 1, by omega⟩
      rw [readWithin_of_stale found stale computed]
      -- Marking the model leaves fewer to compute, so the induction covers whatever it asks for.
      have sound : SoundWithin r₀ i (lookupWithin limit (i + 1)) := fun name s within underway =>
        underway.lookup (fun _ _ => readWithin_balanced within)
          fun d name => ih i (by omega) underway within d name
      exact underway.compute found stale computed sound (by omega) declared

theorem soundWithin_lookupWithin (declared : r₀.WellDeclared) :
    SoundWithin r₀ k (lookupWithin limit (k + 1)) := fun _ _ within underway =>
  underway.lookup (fun _ _ => readWithin_balanced within)
    fun d name => underway.read declared within d name

/-- What is left of the model that a read is about. -/
def Leaves (r : Region β α) (d : Domain) (name : String) : Except ModelError (Field α) → Prop
  | .ok data => ∃ m, r.models.get? d name = some m ∧ m.state = .fresh ∧ m.value = some data ∧
      data.size = r.size d
  | .error _ => ∀ m, r.models.get? d name = some m → m.state = .stale ∧ m.value = none

/-- The read of a model that is not being computed leaves it fresh with the values returned, or
stale without a value. -/
theorem Underway.ended (underway : Underway r₀ r) (enough : r.waiting ≤ k)
    (idle : ¬r.OnStack d name) :
    (readWithin limit k d name r).2.Leaves d name (readWithin limit k d name r).1 := by
  rcases underway.cases d name with
    missing | ⟨m, data, found, fresh, value⟩ | ⟨m, found, computing⟩ |
    ⟨m, calculator, found, stale, computed⟩
  · rw [readWithin_of_missing missing]
    intro m found
    rw [missing] at found
    cases found
  · rw [readWithin_of_fresh found fresh value]
    obtain ⟨data', value', size, -⟩ := underway.current found fresh
    cases value.symm.trans value'
    exact ⟨m, found, fresh, value, size⟩
  · exact absurd (onStack_iff.mpr ⟨m, found, computing⟩) idle
  · -- Only a stale model is calculated, and it is still marked when its calculation ends.
    have fewer := waiting_marked_lt found stale
    obtain ⟨i, rfl⟩ : ∃ i, k = i + 1 := ⟨k - 1, by omega⟩
    rw [readWithin_of_stale found stale computed]
    have within : (r.marked d name m).waiting ≤ i := by omega
    have balanced := calculate_balanced limit calculator within
    revert balanced
    generalize (calculator.calculate r.surroundings (r.targetOf d name m)).runState
      (lookupWithin limit (i + 1)) parameter? (r.marked d name m) = ran
    intro balanced
    obtain ⟨m', found', -⟩ := balanced.get?_marked found computed
    simp only [endRead_of_found (t := r.targetOf d name m) found']
    have here : (ran.2.concluded (r.targetOf d name m) ran.1 m').models.get? d name =
        some (m'.concluded (ran.2.settle (r.targetOf d name m) ran.1)) :=
      (get?_concluded (t := r.targetOf d name m) found').trans (if_pos rfl)
    cases settled : ran.2.settle (r.targetOf d name m) ran.1 with
    | ok data =>
      rw [settled] at here
      refine ⟨_, here, rfl, rfl, ?_⟩
      have size := congrFun (size_of_uncached_eq balanced.declared) d
      exact (size_of_settle settled).trans size.symm
    | error e =>
      intro m'' found''
      rw [settled] at here
      cases here.symm.trans found''
      exact ⟨rfl, rfl⟩

end Region

end FiniteVolume
