import FiniteVolume.Proofs.Model.History

/-!
Fresh models are current.

A fresh model of a current region (`Region.Current`) holds the values that recomputation from the
declarations gives. Reads keep a region current, and a settled region that is current reads as if
nothing had been cached, but for the model that a cycle is reported at.
-/
namespace FiniteVolume

variable {β α : Type}

theorem Model.fresh_of_uncached {m : Model β α} (fresh : m.uncached.state = .fresh) :
    m.state = .fresh := by
  unfold uncached at fresh
  cases source : m.source with
  | written => simpa [source] using fresh
  | computed calculator => simp [source] at fresh

namespace Region

variable [Scalar α] {r r' : Region β α} {d : Domain} {name : String} {m : Model β α}

/-! ## Fresh models and recomputation -/

/-- Every fresh model has the values that recomputation gives. -/
def Current (r : Region β α) : Prop :=
  ∀ d name m, r.models.get? d name = some m → m.state = .fresh →
    ∃ data, m.value = some data ∧ r.uncached.Yields d name (.ok data)

/-- Values carry over to another stage of the same declarations when those of fresh models do. -/
theorem Yields.transfer (same : r'.uncached = r.uncached)
    (fresh : ∀ d name m m' result, r.models.get? d name = some m →
      r'.models.get? d name = some m' → m.state = .fresh ∨ m'.state = .fresh →
      r.Yields d name result → r'.Yields d name result)
    {result : Except ModelError (Field α)} (yields : r.Yields d name result) :
    r'.Yields d name result := by
  obtain ⟨j, computed⟩ := yields
  induction j using Nat.strongRecOn generalizing d name result with
  | _ j ih =>
    cases found : r.models.get? d name with
    | none =>
      rw [valueWithin_of_missing found] at computed
      exact ⟨0, (valueWithin_of_missing (missing_of_uncached_eq same found)).trans computed⟩
    | some m =>
      obtain ⟨m', found', equal⟩ := get?_of_uncached_eq same found
      -- Only a model that is fresh on neither side is computed, from values at a lesser depth.
      by_cases current : m.state = .fresh ∨ m'.state = .fresh
      · exact fresh d name m m' result found found' current ⟨j, computed⟩
      obtain ⟨stale, stale'⟩ := not_or.mp current
      have source := Model.source_of_uncached equal
      cases kind : m.source with
      | written =>
        rw [Model.uncached_of_written kind, Model.uncached_of_written (source.trans kind)] at equal
        subst equal
        have settled : m'.pending? = none := by rw [Model.pending?, kind]
        rw [valueWithin_of_settled found settled] at computed
        exact ⟨0, (valueWithin_of_settled found' settled).trans computed⟩
      | computed calculator =>
        have pending := Model.pending?_eq_some_iff.mpr ⟨kind, stale⟩
        have pending' := Model.pending?_eq_some_iff.mpr ⟨source.trans kind, stale'⟩
        have target : r'.targetOf d name m' = r.targetOf d name m := by
          rw [targetOf_of_uncached_eq same]
          simp only [targetOf, Model.contact_of_uncached equal]
        cases j with
        | zero =>
          rw [valueWithin_zero found pending] at computed
          cases computed
        | succ j =>
          rw [valueWithin_succ found pending] at computed
          obtain ⟨outcome, ran, rfl⟩ := Option.map_eq_some_iff.mp computed
          have answers : ∀ y a, r.answerWith (r.valueWithin j) y = some a → r'.Answers y a := by
            intro y a answered
            have resolve := congrFun (resolve?_of_uncached_eq same) y
            rw [answerWith] at answered
            cases resolved : r.resolve? y with
            | none =>
              rw [resolved] at answered
              cases answered
              exact answers_of_unresolved (resolve.trans resolved)
            | some called =>
              rw [resolved] at answered
              obtain ⟨result, value, rfl⟩ := Option.map_eq_some_iff.mp answered
              exact answers_of_yields (resolve.trans resolved) (ih j (by omega) value)
          have returns := (Query.run_option_eq_some_iff.mp ran).mono answers
          rw [← surroundings_of_uncached_eq same, ← target, ← parameter?_of_uncached_eq same]
            at returns
          rw [← settle_of_uncached_eq same, ← target]
          exact yields_of_returns found' pending' returns

/-- A fresh model of a current region has one value, before and after forgetting. -/
theorem Current.yields_iff (current : r.Current) (found : r.models.get? d name = some m)
    (fresh : m.state = .fresh) {result : Except ModelError (Field α)} :
    r.uncached.Yields d name result ↔ r.Yields d name result := by
  obtain ⟨data, value, yields⟩ := current d name m found fresh
  have cached : r.Yields d name (.ok data) := ⟨0, valueWithin_of_fresh found fresh value⟩
  constructor
  · intro other
    rwa [other.unique yields]
  · intro other
    rwa [other.unique cached]

theorem Current.yields_uncached_iff (current : r.Current) {result : Except ModelError (Field α)} :
    r.uncached.Yields d name result ↔ r.Yields d name result := by
  have forgotten : ∀ {d name m m₀}, r.models.get? d name = some m →
      r.uncached.models.get? d name = some m₀ → m₀ = m.uncached := by
    intro d name m m₀ found found₀
    rw [uncached, ModelStore.get?_uncached, found] at found₀
    cases found₀
    rfl
  constructor
  · refine Yields.transfer r.uncached_uncached.symm fun d name m₀ m result found₀ found fresh => ?_
    cases forgotten found found₀
    exact (current.yields_iff found (fresh.elim Model.fresh_of_uncached id)).mp
  · refine Yields.transfer r.uncached_uncached fun d name m m₀ result found found₀ fresh => ?_
    cases forgotten found found₀
    exact (current.yields_iff found (fresh.elim id Model.fresh_of_uncached)).mpr

theorem Current.of_underway (current : r.Current) (underway : Underway r r') : r'.Current := by
  intro d name m' found' fresh
  obtain ⟨data, value, -, yields⟩ := underway.current found' fresh
  rw [underway.declared]
  exact ⟨data, value, current.yields_uncached_iff.mpr yields⟩

section

variable [BaseScalar β] [Precision β α]

/-- What a read returns is what the region yields, unless it is a cycle. -/
theorem Settled.read_eq_iff (settled : r.Settled) {result : Except ModelError (Field α)}
    (acyclic : cycleOf result = none) : (r.read d name).1 = result ↔ r.Yields d name result := by
  have underway := settled.underway
  constructor
  · rintro rfl
    exact (underway.read settled.wellDeclared r.waiting_le_size d name).2 acyclic
  · exact underway.read_eq_of_yields settled.wellDeclared r.waiting_le_size settled.idle

theorem Settled.uncached (settled : r.Settled) : r.uncached.Settled where
  models d name m found := by
    rw [Region.uncached, ModelStore.get?_uncached] at found
    obtain ⟨m, present, rfl⟩ := Option.map_eq_some_iff.mp found
    exact (settled.models d name m present).uncached
  mirrored := settled.mirrored

end

end Region

end FiniteVolume
