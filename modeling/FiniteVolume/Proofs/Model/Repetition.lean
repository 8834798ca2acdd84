import FiniteVolume.Proofs.Model.Values

/-!
Reads of a region that repeat.

Two regions on the way through reads of one region read alike, whatever each has cached so far
(`Region.Abreast.read_eq`). Values that recomputation gives are returned by both. A model on or
above a cycle is cached by neither, so both compute it side by side and meet the cycle at the same name.
-/
namespace FiniteVolume.Region

variable {β α : Type} [Scalar α] {limit : String → RegionRead β α (Option (Resolved α))}
  {r₀ r r' : Region β α} {d : Domain} {name : String} {m : Model β α} {k : Nat}

theorem Undefined.not_yields {result : Except ModelError (Field α)} (undefined : r₀.Undefined d name)
    (yields : r₀.Yields d name result) : False := by
  obtain ⟨depth, computed⟩ := yields
  rw [undefined depth] at computed
  cases computed

theorem Underway.cases_of_undefined (underway : Underway r₀ r) (undefined : r₀.Undefined d name) :
    (∃ m, r.models.get? d name = some m ∧ m.state = .computing) ∨
    ∃ m calculator, r.models.get? d name = some m ∧ m.state = .stale ∧
      m.source = .computed calculator := by
  rcases underway.cases d name with
    missing | ⟨m, data, found, fresh, -⟩ | computing | stale
  · exact (undefined.not_yields
      ⟨0, valueWithin_of_missing (missing_of_uncached_eq underway.declared.symm missing)⟩).elim
  · obtain ⟨data, -, -, yields⟩ := underway.current found fresh
    exact (undefined.not_yields yields).elim
  · exact .inl computing
  · exact .inr stale

/-- Two regions in the course of the calculation of a model on or above a cycle, below others such. -/
structure Abreast (r₀ s t : Region β α) : Prop where
  left : Underway r₀ s
  right : Underway r₀ t
  stack : ∀ d name, t.OnStack d name ↔ s.OnStack d name
  undefined : ∀ d name, s.OnStack d name → r₀.Undefined d name

namespace Abreast

variable (abreast : Abreast r₀ r r')

include abreast

theorem same : r'.uncached = r.uncached :=
  abreast.right.declared.trans abreast.left.declared.symm

theorem waiting_eq : r'.waiting = r.waiting :=
  waiting_congr (keys_of_uncached_eq abreast.same) abreast.stack

theorem symm : Abreast r₀ r' r where
  left := abreast.right
  right := abreast.left
  stack d name := (abreast.stack d name).symm
  undefined d name onStack := abreast.undefined d name ((abreast.stack d name).mp onStack)

theorem descends : r₀.Descends r d name := by
  rintro d' name' onStack j ⟨result, computed⟩
  rw [abreast.undefined d' name' onStack j] at computed
  cases computed

/-- Lookups answer alike where the reads that they rest on do. -/
theorem lookup {read : Domain → String → RegionRead β α (Field α)} (name : String)
    (same : ∀ d name, (read d name r').1 = (read d name r).1 ∧
      Abreast r₀ (read d name r).2 (read d name r').2) :
    (lookupWith read name r').1 = (lookupWith read name r).1 ∧
      Abreast r₀ (lookupWith read name r).2 (lookupWith read name r').2 := by
  have resolve : r'.resolve? = r.resolve? := resolve?_of_uncached_eq abreast.same
  cases resolved : r.resolve? name with
  | none =>
    rw [lookupWith_of_unresolved resolved, lookupWith_of_unresolved (resolve ▸ resolved)]
    exact ⟨rfl, abreast⟩
  | some found =>
    rw [lookupWith_of_resolved resolved, lookupWith_of_resolved (resolve ▸ resolved)]
    obtain ⟨result, after⟩ := same found.source.1 found.source.2
    exact ⟨by rw [result], after⟩

end Abreast

theorem Abreast.after (abreast : Abreast r₀ r r') (declared : r₀.WellDeclared) (enough : r.waiting ≤ k)
    (d : Domain) (name : String) :
    Abreast r₀ (readWithin limit k d name r).2 (readWithin limit k d name r').2 where
  left := (abreast.left.read declared enough d name).1
  right := (abreast.right.read declared (abreast.waiting_eq ▸ enough) d name).1
  stack d' name' := by
    have left : Balanced r (readWithin limit k d name r).2 := readWithin_balanced enough
    have right : Balanced r' (readWithin limit k d name r').2 :=
      readWithin_balanced (abreast.waiting_eq ▸ enough)
    rw [right.stack, left.stack, abreast.stack]
  undefined d' name' onStack := by
    have left : Balanced r (readWithin limit k d name r).2 := readWithin_balanced enough
    exact abreast.undefined d' name' ((left.stack d' name').mp onStack)

/-- A model that both compute, from the same calculation. -/
structure Abreast.Pair (r r' : Region β α) (d : Domain) (name : String) (m m' : Model β α)
    (calculator : Calculator β α) : Prop where
  found : r.models.get? d name = some m
  stale : m.state = .stale
  computed : m.source = .computed calculator
  found' : r'.models.get? d name = some m'
  stale' : m'.state = .stale
  computed' : m'.source = .computed calculator
  target : r'.targetOf d name m' = r.targetOf d name m

namespace Abreast

variable {m' : Model β α} {calculator : Calculator β α} (abreast : Abreast r₀ r r')
  (undefined : r₀.Undefined d name)

include abreast undefined

theorem cases_of_undefined : (r.OnStack d name ∧ r'.OnStack d name) ∨
    ∃ m m' calculator, Pair r r' d name m m' calculator := by
  rcases abreast.left.cases_of_undefined undefined with
    ⟨m, found, computing⟩ | ⟨m, calculator, found, stale, computed⟩
  · have onStack := onStack_iff.mpr ⟨m, found, computing⟩
    exact .inl ⟨onStack, (abreast.stack d name).mpr onStack⟩
  obtain ⟨m', found', alike⟩ := get?_of_uncached_eq abreast.same found
  rcases abreast.right.cases_of_undefined undefined with
    ⟨_, again, computing⟩ | ⟨_, calculator', again, stale', computed'⟩
  · have onStack' := onStack_iff.mpr ⟨_, again, computing⟩
    exact .inl ⟨(abreast.stack d name).mp onStack', onStack'⟩
  · cases found'.symm.trans again
    refine .inr ⟨m, m', calculator, found, stale, computed, found', stale',
      (Model.source_of_uncached alike).trans computed, ?_⟩
    rw [targetOf_of_uncached_eq abreast.same, targetOf, targetOf, Model.contact_of_uncached alike]

theorem mark (pair : Pair r r' d name m m' calculator) :
    Abreast r₀ (r.marked d name m) (r'.marked d name m') where
  left := abreast.left.mark pair.found pair.stale pair.computed
  right := abreast.right.mark pair.found' pair.stale' pair.computed'
  stack d' name' := by rw [onStack_marked pair.found, onStack_marked pair.found', abreast.stack]
  undefined d' name' onStack := by
    rcases (onStack_marked pair.found).mp onStack with self | below
    · cases self
      exact undefined
    · exact abreast.undefined d' name' below

end Abreast

/-- Both regions read alike, and what lies on or above a cycle they compute side by side. -/
theorem Abreast.read_eq (abreast : Abreast r₀ r r') (declared : r₀.WellDeclared)
    (enough : r.waiting ≤ k) (d : Domain) (name : String) :
    (readWithin limit k d name r').1 = (readWithin limit k d name r).1 := by
  induction k using Nat.strongRecOn generalizing r r' d name with
  | _ k ih =>
    by_cases defined : ∃ j result, r₀.valueWithin j d name = some result
    · obtain ⟨j, result, computed⟩ := defined
      have enough' : r'.waiting ≤ k := abreast.waiting_eq ▸ enough
      rw [abreast.left.read_eq_of_deeper declared enough
          (abreast.left.deeper_visits declared enough abreast.descends) computed,
        abreast.right.read_eq_of_deeper declared enough'
          (abreast.right.deeper_visits declared enough' abreast.symm.descends) computed]
    have undefined : r₀.Undefined d name := fun j =>
      Option.eq_none_iff_forall_ne_some.mpr fun result computed => defined ⟨j, result, computed⟩
    rcases abreast.cases_of_undefined undefined with
      ⟨onStack, onStack'⟩ | ⟨m, m', calculator, pair⟩
    · obtain ⟨m, found, computing⟩ := onStack_iff.mp onStack
      obtain ⟨m', found', computing'⟩ := onStack_iff.mp onStack'
      rw [readWithin_of_computing found computing, readWithin_of_computing found' computing']
    -- The same calculation starts in both, and by induction all its questions have the same answers.
    have fewer := waiting_marked_lt pair.found pair.stale
    obtain ⟨i, rfl⟩ : ∃ i, k = i + 1 := ⟨k - 1, by omega⟩
    have start := abreast.mark undefined pair
    have within : (r.marked d name m).waiting ≤ i := by omega
    have agree := Query.runState_agree
      (calculator.calculate r.surroundings (r.targetOf d name m)) (lookupWithin limit (i + 1)) parameter?
      (P := fun s t => Abreast r₀ s t ∧ s.waiting ≤ i) ⟨start, within⟩
      (fun s t both => parameter?_of_uncached_eq both.1.same) ?_
    · rw [readWithin_of_stale_fst pair.found pair.stale pair.computed within,
        readWithin_of_stale_fst pair.found' pair.stale' pair.computed' (start.waiting_eq ▸ within)]
      dsimp only
      rw [surroundings_of_uncached_eq abreast.same, pair.target, agree.1,
        settle_of_uncached_eq agree.2.1.same]
    · rintro asked s t ⟨abreast, enough⟩
      obtain ⟨result, after⟩ := abreast.lookup asked fun d name =>
        ⟨ih i (by omega) abreast enough d name, abreast.after declared enough d name⟩
      have balanced : Balanced s (lookupWithin limit (i + 1) asked s).2 :=
        lookupWithin_balanced enough
      exact ⟨result, after, balanced.waiting_eq ▸ enough⟩

/-- Once some models were read, a read still returns what it returned at first, be it a failure. -/
theorem Reading.read_eq (reading : Reading r₀ r) (ready : r₀.Ready) (d : Domain) (name : String) :
    (r.read d name).1 = (r₀.read d name).1 := by
  have abreast : Abreast r₀ r₀ r := ⟨ready.underway, reading.underway, reading.balanced.stack,
    fun d name onStack => absurd onStack (ready.idle d name)⟩
  have enough : r.waiting ≤ r₀.models.models.size := abreast.waiting_eq ▸ r₀.waiting_le_size
  rw [Region.read, readWithin_eq r.waiting_le_size enough]
  exact abreast.read_eq ready.declared r₀.waiting_le_size d name

end FiniteVolume.Region
