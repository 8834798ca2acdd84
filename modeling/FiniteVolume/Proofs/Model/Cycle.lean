import Mathlib.Data.List.Basic
import FiniteVolume.Proofs.Model.Caching

/-!
Reads that meet a model that is being computed.

`visits` lists the reads in the course of a read, each with the region in which it begins. A read
reports a cycle exactly when some visit finds its model being computed, and names the model of the
first such visit (`Underway.cycleOf_readWithin`). All models being computed at such a visit are
without a value in the region before the read: along the stack the depth of a recomputation falls,
which it cannot do around a cycle (`undefined_of_descends`). They are stale and without a cached
value when the read is over (`Underway.unwound`).
-/
namespace FiniteVolume

variable {β α : Type}

structure Visit (β α : Type) where
  domain : Domain
  name : String
  /-- The region in which it begins. -/
  region : Region β α

namespace Visit

def Reenters (v : Visit β α) : Prop := v.region.OnStack v.domain v.name

instance (v : Visit β α) : Decidable v.Reenters := inferInstanceAs (Decidable (v.region.OnStack ..))

end Visit

namespace Region

variable [Scalar α] {limit : String → RegionRead β α (Option (Resolved α))} {r r₀ : Region β α}
  {d : Domain} {name : String} {m : Model β α} {calculator : Calculator β α} {k : Nat}

/-! ## Visits -/

def followed (visits : Domain → String → Region β α → List (Visit β α)) :
    Question × Region β α → List (Visit β α)
  | (.model name, s) =>
    match s.resolve? name with
    | none => []
    | some found => visits found.source.1 found.source.2 s
  | (.parameter _, _) => []

/-- The reads in the course of a read, in the order in which they begin. -/
def visits (limit : String → RegionRead β α (Option (Resolved α))) :
    (depth : Nat) → Domain → String → Region β α → List (Visit β α)
  | depth, d, name, r =>
    ⟨d, name, r⟩ ::
      match beginRead d name r with
      | (.ok (.compute calculator target), s) =>
        match depth with
        | 0 => []
        | depth + 1 =>
          ((calculator.calculate s.surroundings target).log (lookupWithin limit (depth + 1))
            parameter? s).flatMap (followed (visits limit depth))
      | _ => []

theorem visits_of_begin (result : Except ModelError (Field α))
    (began : r.models.begin d name (r.size d) = (result.map Access.ready, r.models)) :
    visits limit k d name r = [⟨d, name, r⟩] := by
  have start : beginRead d name r = (result.map Access.ready, r) := by
    rw [beginRead_eq, began]
  unfold visits
  rw [start]
  cases result <;> rfl

theorem visits_of_stale (found : r.models.get? d name = some m) (stale : m.state = .stale)
    (computed : m.source = .computed calculator) :
    visits limit (k + 1) d name r = ⟨d, name, r⟩ ::
      ((calculator.calculate r.surroundings (r.targetOf d name m)).log (lookupWithin limit (k + 1))
        parameter? (r.marked d name m)).flatMap (followed (visits limit k)) := by
  have start : beginRead d name r =
      (.ok (.compute calculator (r.targetOf d name m)), r.marked d name m) := by
    rw [beginRead_eq, ModelStore.begin_of_stale found stale computed]
    rfl
  rw [visits, start]
  rfl

theorem mem_followed {visits : Domain → String → Region β α → List (Visit β α)}
    {asked : Question × Region β α} {v : Visit β α} :
    v ∈ followed visits asked ↔ ∃ name found, asked.1 = .model name ∧
      asked.2.resolve? name = some found ∧ v ∈ visits found.source.1 found.source.2 asked.2 := by
  obtain ⟨asked | asked, s⟩ := asked
  · cases resolved : s.resolve? asked with
    | none => simp [followed, resolved]
    | some found => simp [followed, resolved]
  · simp [followed]

/-! ## The cycle that a read reports -/

/-- A read reports the cycle that is closed first in its course, and none if none is closed. -/
theorem Underway.cycleOf_readWithin (underway : Underway r₀ r) (declared : r₀.WellDeclared)
    (enough : r.waiting ≤ k) (d : Domain) (name : String) :
    cycleOf (readWithin limit k d name r).1 =
      ((visits limit k d name r).find? (·.Reenters)).map (·.name) := by
  induction k using Nat.strongRecOn generalizing r d name with
  | _ k ih =>
    rcases underway.cases d name with
      missing | ⟨m, data, found, fresh, value⟩ | ⟨m, found, computing⟩ |
      ⟨m, calculator, found, stale, computed⟩
    · rw [readWithin_of_missing missing, visits_of_begin (.error _) (ModelStore.begin_of_missing missing)]
      simp [Visit.Reenters, onStack_iff, missing, cycleOf, ModelError.cycle?]
    · rw [readWithin_of_fresh found fresh value,
        visits_of_begin (.ok data) (ModelStore.begin_of_fresh found fresh value)]
      simp [Visit.Reenters, onStack_iff, found, fresh, cycleOf]
    · rw [readWithin_of_computing found computing,
        visits_of_begin (.error _) (ModelStore.begin_of_computing found computing)]
      simp [Visit.Reenters, onStack_iff, found, computing, cycleOf,
        ModelError.cycle?]
    · have fewer := waiting_marked_lt found stale
      obtain ⟨i, rfl⟩ : ∃ i, k = i + 1 := ⟨k - 1, by omega⟩
      have sound : SoundWithin r₀ i (lookupWithin limit (i + 1)) :=
        soundWithin_lookupWithin declared
      have within : (r.marked d name m).waiting ≤ i := by omega
      have after := underway.during_run found stale computed sound within
        (q := calculator.calculate r.surroundings (r.targetOf d name m))
      have idle : ¬(⟨d, name, r⟩ : Visit β α).Reenters := by
        simp [Visit.Reenters, onStack_iff, found, stale]
      rw [readWithin_of_stale found stale computed, visits_of_stale found stale computed,
        after.balanced.endRead_fst found computed,
        underway.cycleOf_settle found stale computed sound within declared,
        List.find?_cons_of_neg (by simpa using idle), List.find?_flatMap, List.map_findSome?,
        ← List.head?_filterMap, ← List.head?_filterMap]
      -- Question by question, the cycle in the answer is the first among the visits it leads to.
      congr 1
      refine List.filterMap_congr fun asked member => ?_
      have during := underway.during_of_mem_log found stale computed sound within asked member
      obtain ⟨asked | asked, s⟩ := asked
      · cases resolved : s.resolve? asked with
        | none =>
          simp [Query.cycleIn, lookupWithin, lookupWith_of_unresolved resolved, followed, resolved,
            cycleOf]
        | some found =>
          have here := ih i (by omega) during.underway (during.balanced.waiting_eq ▸ within)
            found.source.1 found.source.2
          simp [Query.cycleIn, lookupWithin, lookupWith_of_resolved resolved, followed, resolved,
            cycleOf_map, here]
      · rfl

theorem Underway.forall_visits (underway : Underway r₀ r) (declared : r₀.WellDeclared)
    (found : r.models.get? d name = some m) (stale : m.state = .stale)
    (computed : m.source = .computed calculator) (within : (r.marked d name m).waiting ≤ k)
    {P : Visit β α → Prop} (self : P ⟨d, name, r⟩)
    (nested : ∀ asked s found, (.model asked, s) ∈ (calculator.calculate r.surroundings
        (r.targetOf d name m)).log (lookupWithin limit (k + 1)) parameter? (r.marked d name m) →
      During r₀ r d name m s → s.resolve? asked = some found →
      ∀ v ∈ visits limit k found.source.1 found.source.2 s, P v) :
    ∀ v ∈ visits limit (k + 1) d name r, P v := by
  rw [visits_of_stale found stale computed]
  refine List.forall_mem_cons.mpr ⟨self, fun v member => ?_⟩
  obtain ⟨⟨question, s⟩, asked, followed⟩ := List.mem_flatMap.mp member
  obtain ⟨name', found', rfl, resolved, visited⟩ := mem_followed.mp followed
  have during := underway.during_of_mem_log found stale computed
    (soundWithin_lookupWithin declared) within _ asked
  exact nested name' s found' asked during resolved v visited

/-- Every visit is followed by the end of the read. -/
theorem Underway.progress_of_visit (underway : Underway r₀ r) (declared : r₀.WellDeclared)
    (enough : r.waiting ≤ k) (d : Domain) (name : String) :
    ∀ v ∈ visits limit k d name r, Progress v.region (readWithin limit k d name r).2 := by
  induction k using Nat.strongRecOn generalizing r d name with
  | _ k ih =>
    rcases steps_of_enough enough d name with
      ⟨m, calculator, i, rfl, found, stale, computed, within⟩ | ⟨result, began⟩
    · have balanced : Balanced r (readWithin limit (i + 1) d name r).2 := readWithin_balanced enough
      refine underway.forall_visits declared found stale computed within balanced.toProgress ?_
      intro asked s found' member during resolved v visited
      have sound : SoundWithin r₀ i (lookupWithin limit (i + 1)) :=
        soundWithin_lookupWithin declared
      have answer : Progress v.region (lookupWithin limit (i + 1) asked s).2 := by
        simp only [lookupWithin, lookupWith_of_resolved resolved]
        exact ih i (by omega) during.underway (during.balanced.waiting_eq ▸ within) _ _ v visited
      -- From the end of the lookup on, only answers to later questions change the region.
      have rest := Query.rel_after_lookup
        (R := fun s t => During r₀ r d name m s → During r₀ r d name m t ∧ Progress s t)
        (fun s during => ⟨during, .refl s⟩)
        (fun s t u first second during =>
          have between := first during
          have after := second between.1
          ⟨after.1, between.2.trans after.2⟩)
        (fun asked s during => ⟨during.lookup sound within asked,
          (during.sound sound within asked).balanced.toProgress⟩)
        member (during.lookup sound within asked)
      rw [readWithin_of_stale found stale computed]
      exact (answer.trans rest.2).trans (rest.1.balanced.progress_endRead found computed _)
    · rw [readWithin_of_begin began, visits_of_begin result began]
      intro v self
      cases List.mem_singleton.mp self
      exact .refl r

/-! ## The stack at a visit -/

def DefinedWithin (r : Region β α) (depth : Nat) (d : Domain) (name : String) : Prop :=
  ∃ result, r.valueWithin depth d name = some result

theorem DefinedWithin.mono {i j : Nat} (defined : r.DefinedWithin i d name) (le : i ≤ j) :
    r.DefinedWithin j d name :=
  let ⟨result, computed⟩ := defined
  ⟨result, valueWithin_mono le computed⟩

theorem undefined_iff : r.Undefined d name ↔ ∀ depth, ¬r.DefinedWithin depth d name := by
  simp [Undefined, DefinedWithin, Option.eq_none_iff_forall_ne_some]

/-- Whatever on the stack is defined at some depth, the model is defined at a lesser one. -/
def Descends (r₀ r : Region β α) (d : Domain) (name : String) : Prop :=
  ∀ d' name', r.OnStack d' name' → ∀ j, r₀.DefinedWithin j d' name' →
    ∃ i < j, r₀.DefinedWithin i d name

/-- Where depth falls along the stack, nothing on the stack is defined once a model of it is read
again. -/
theorem undefined_of_descends (descends : r₀.Descends r d name) (again : r.OnStack d name)
    {d' : Domain} {name' : String} (onStack : r.OnStack d' name') : r₀.Undefined d' name' := by
  have self : ∀ j, ¬r₀.DefinedWithin j d name := by
    intro j
    induction j using Nat.strongRecOn with
    | _ j ih =>
      intro defined
      obtain ⟨i, less, defined'⟩ := descends d name again j defined
      exact ih i less defined'
  refine undefined_iff.mpr fun j defined => ?_
  obtain ⟨i, -, defined'⟩ := descends d' name' onStack j defined
  exact self i defined'

theorem During.descends {s : Region β α} (during : During r₀ r d name m s)
    (found : r.models.get? d name = some m) (descends : r₀.Descends r d name)
    {d' : Domain} {name' : String}
    (called : ∀ i, r₀.DefinedWithin (i + 1) d name → ¬r₀.DefinedWithin i d name →
      r₀.DefinedWithin i d' name')
    (pending : ¬r₀.DefinedWithin 0 d name) : r₀.Descends s d' name' := by
  have own : ∀ j, r₀.DefinedWithin j d name → ∃ i < j, r₀.DefinedWithin i d' name' := by
    intro j
    induction j with
    | zero => exact fun defined => absurd defined pending
    | succ j ih =>
      intro defined
      by_cases earlier : r₀.DefinedWithin j d name
      · obtain ⟨i, less, defined'⟩ := ih earlier
        exact ⟨i, by omega, defined'⟩
      · exact ⟨j, by omega, called j defined earlier⟩
  intro d'' name'' onStack j defined
  rcases (onStack_marked found).mp ((during.balanced.stack d'' name'').mp onStack) with self | below
  · cases self
    exact own j defined
  · obtain ⟨i, less, defined'⟩ := descends d'' name'' below j defined
    obtain ⟨i', less', called'⟩ := own i defined'
    exact ⟨i', by omega, called'⟩

/-- The depth of recomputation falls along the stack up to the visit, and the visit is defined where
the read is. -/
structure Deeper (r₀ : Region β α) (d : Domain) (name : String) (v : Visit β α) : Prop where
  descends : r₀.Descends v.region v.domain v.name
  defined : ∀ j, r₀.DefinedWithin j d name → r₀.DefinedWithin j v.domain v.name

/-- The read of a defined model returns its value, when depth falls along its visits. -/
theorem Underway.read_eq_of_deeper (underway : Underway r₀ r) (declared : r₀.WellDeclared)
    (enough : r.waiting ≤ k) (deeper : ∀ v ∈ visits limit k d name r, Deeper r₀ d name v)
    {j : Nat} {result : Except ModelError (Field α)}
    (computed : r₀.valueWithin j d name = some result) :
    (readWithin limit k d name r).1 = result := by
  have acyclic : cycleOf (readWithin limit k d name r).1 = none := by
    rw [underway.cycleOf_readWithin declared enough, Option.map_eq_none_iff, List.find?_eq_none]
    intro v member
    have undefined : ¬v.Reenters := fun again =>
      undefined_iff.mp (undefined_of_descends (deeper v member).descends again again) j
        ((deeper v member).defined j ⟨result, computed⟩)
    simpa using undefined
  exact ((underway.read declared enough d name).2 acyclic).unique ⟨j, computed⟩

theorem DefinedWithin.threshold_unique {i j : Nat} (after : r.DefinedWithin (i + 1) d name)
    (before : ¬r.DefinedWithin i d name) (after' : r.DefinedWithin (j + 1) d name)
    (before' : ¬r.DefinedWithin j d name) : i = j := by
  rcases Nat.lt_trichotomy i j with less | same | more
  · exact absurd (after.mono less) before'
  · exact same
  · exact absurd (after'.mono more) before

/-- A model that is first defined at some depth asks for what is defined one less deep, provided that
reads of such models return their values. -/
theorem Underway.defined_of_mem_log (underway : Underway r₀ r) (declared : r₀.WellDeclared)
    (found : r.models.get? d name = some m) (stale : m.state = .stale)
    (computed : m.source = .computed calculator) (within : (r.marked d name m).waiting ≤ k)
    {j : Nat} (after : r₀.DefinedWithin (j + 1) d name)
    (reads : ∀ s d' name' result, During r₀ r d name m s →
      r₀.valueWithin j d' name' = some result → (readWithin limit k d' name' s).1 = result)
    {asked : String} {s : Region β α} (member : (.model asked, s) ∈ (calculator.calculate
      r.surroundings (r.targetOf d name m)).log (lookupWithin limit (k + 1)) parameter?
        (r.marked d name m)) {called : Resolution α} (resolved : s.resolve? asked = some called) :
    r₀.DefinedWithin j called.source.1 called.source.2 := by
  obtain ⟨m₀, found₀, pending, target⟩ := underway.pending found stale computed
  have sound : SoundWithin r₀ k (lookupWithin limit (k + 1)) := soundWithin_lookupWithin declared
  obtain ⟨result, after⟩ := after
  rw [valueWithin_succ found₀ pending, ← surroundings_of_uncached_eq underway.declared,
    target] at after
  obtain ⟨outcome, ran, -⟩ := Option.map_eq_some_iff.mp after
  -- The questions are those of the recomputation, since their answers are its answers.
  have follows : ∀ name' s a, During r₀ r d name m s →
      r₀.answerWith (r₀.valueWithin j) name' = some a →
      (lookupWithin limit (k + 1) name' s).1 = a ∧
        During r₀ r d name m (lookupWithin limit (k + 1) name' s).2 := by
    intro name' s a during answered
    refine ⟨?_, during.lookup sound within name'⟩
    rw [answerWith, ← resolve?_of_uncached_eq during.underway.declared] at answered
    cases resolved : s.resolve? name' with
    | none =>
      rw [resolved] at answered
      simp only [lookupWithin, lookupWith_of_unresolved resolved]
      exact Option.some.inj answered
    | some found' =>
      rw [resolved] at answered
      obtain ⟨result, value, rfl⟩ := Option.map_eq_some_iff.mp answered
      simp only [lookupWithin, lookupWith_of_resolved resolved]
      rw [reads s _ _ result during value]
  obtain ⟨during, a, answered⟩ := Query.answered_of_mem_log (Query.run_option_eq_some_iff.mp ran)
    (⟨.refl _, underway.mark found stale computed⟩ : During r₀ r d name m (r.marked d name m))
    (fun s during => parameter?_of_uncached_eq during.underway.declared) follows asked s member
  rw [answerWith, ← resolve?_of_uncached_eq during.underway.declared, resolved] at answered
  obtain ⟨value, computed', -⟩ := Option.map_eq_some_iff.mp answered
  exact ⟨value, computed'⟩

theorem Underway.deeper_visits (underway : Underway r₀ r) (declared : r₀.WellDeclared)
    (enough : r.waiting ≤ k) (descends : r₀.Descends r d name) :
    ∀ v ∈ visits limit k d name r, Deeper r₀ d name v := by
  induction k using Nat.strongRecOn generalizing r d name with
  | _ k ih =>
    rcases steps_of_enough enough d name with
      ⟨m, calculator, i, rfl, found, stale, computed, within⟩ | ⟨result, began⟩
    · obtain ⟨m₀, found₀, pending, target⟩ := underway.pending found stale computed
      have undefined : ¬r₀.DefinedWithin 0 d name := by
        rintro ⟨result, zero⟩
        rw [valueWithin_zero found₀ pending] at zero
        cases zero
      refine underway.forall_visits declared found stale computed within
        ⟨descends, fun _ => id⟩ ?_
      intro asked s found' member during resolved v visited
      -- Of what the model asks for we know only that it is asked for while no read has met a
      -- cycle; that is so because depth falls for every earlier question, by induction.
      have called : ∀ j, r₀.DefinedWithin (j + 1) d name → ¬r₀.DefinedWithin j d name →
          r₀.DefinedWithin j found'.source.1 found'.source.2 := by
        intro j after before
        refine underway.defined_of_mem_log declared found stale computed within after ?_ member
          resolved
        intro t d' name' result during value
        have calls : r₀.Descends t d' name' := during.descends found descends
          (fun j' after' before' =>
            after.threshold_unique before after' before' ▸ ⟨result, value⟩) undefined
        have within' : t.waiting ≤ i := during.balanced.waiting_eq ▸ within
        exact during.underway.read_eq_of_deeper declared within'
          (ih i (by omega) during.underway within' calls) value
      have calls := during.descends found descends called undefined
      have deeper := ih i (by omega) during.underway (during.balanced.waiting_eq ▸ within) calls v
        visited
      refine ⟨deeper.descends, fun j defined => deeper.defined j ?_⟩
      have onStack : s.OnStack d name :=
        (during.balanced.stack d name).mpr ((onStack_marked found).mpr (.inl rfl))
      obtain ⟨i', less, defined'⟩ := calls d name onStack j defined
      exact defined'.mono (by omega)
    · rw [visits_of_begin result began]
      intro v self
      cases List.mem_singleton.mp self
      exact ⟨descends, fun _ => id⟩

/-! ## Reads when nothing is being computed -/

def Idle (r : Region β α) : Prop := ∀ d name, ¬r.OnStack d name

theorem Idle.descends (idle : r.Idle) : r₀.Descends r d name :=
  fun d' name' onStack => absurd onStack (idle d' name')

/-- A read returns the value that recomputation gives, if it gives one. -/
theorem Underway.read_eq_of_yields (underway : Underway r₀ r) (declared : r₀.WellDeclared)
    (enough : r.waiting ≤ k) (idle : r.Idle) {result : Except ModelError (Field α)}
    (yields : r₀.Yields d name result) : (readWithin limit k d name r).1 = result := by
  obtain ⟨j, computed⟩ := yields
  exact underway.read_eq_of_deeper declared enough
    (underway.deeper_visits declared enough idle.descends) computed

/-- Whatever is being computed when a cycle is closed is stale and without a value in the end. -/
theorem Underway.unwound (underway : Underway r₀ r) (declared : r₀.WellDeclared)
    (enough : r.waiting ≤ k) (idle : r.Idle) {v : Visit β α}
    (member : v ∈ visits limit k d name r) (again : v.Reenters) {d' : Domain} {name' : String}
    (onStack : v.region.OnStack d' name') :
    ∃ m, (readWithin limit k d name r).2.models.get? d' name' = some m ∧ m.state = .stale ∧
      m.value = none := by
  have progress := underway.progress_of_visit declared enough d name v member
  have deeper := underway.deeper_visits declared enough idle.descends v member
  have undefined := undefined_of_descends deeper.descends again onStack
  have ended : Underway r₀ (readWithin limit k d name r).2 :=
    (underway.read declared enough d name).1
  obtain ⟨m, found, computing⟩ := onStack_iff.mp onStack
  obtain ⟨m', found', -⟩ := get?_of_uncached_eq progress.declared found
  have stale : m'.state = .stale := by
    cases state : m'.state with
    | stale => rfl
    | computing =>
      have still := onStack_iff.mpr ⟨m', found', state⟩
      exact absurd (((readWithin_balanced enough).stack d' name').mp still) (idle d' name')
    | fresh =>
      obtain ⟨data, -, -, j, computed⟩ := ended.current found' state
      rw [undefined j] at computed
      cases computed
  exact ⟨m', found', stale, (progress.advances found found').cleared (.inl computing) stale⟩

end Region

end FiniteVolume
