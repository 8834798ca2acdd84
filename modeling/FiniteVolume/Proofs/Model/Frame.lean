import FiniteVolume.Proofs.Model.Caching
import FiniteVolume.Proofs.Model.Resolution

/-!
What a change leaves of the values that recomputation gives.

`Agree` lists what two regions have in common when the second results from a change of some names:
everything that recomputation can see of the other names, none of which asks for a changed one. The
values of the other names are then the same (`Agree.valueWithin_eq`).
-/
namespace FiniteVolume

variable {β α : Type}

/-- What was declared of a model: the source, the contact, and the value if it was written. -/
def Model.declaration (m : Model β α) : Model β α := { m.uncached with display := .scalar }

namespace Model

variable {m m' : Model β α}

theorem source_of_declaration (same : m'.declaration = m.declaration) : m'.source = m.source := by
  have source : m'.declaration.source = m.declaration.source := congrArg Model.source same
  rwa [declaration, declaration, source_uncached, source_uncached] at source

theorem contact_of_declaration (same : m'.declaration = m.declaration) :
    m'.contact = m.contact := by
  have contact : m'.declaration.contact = m.declaration.contact := congrArg Model.contact same
  rwa [declaration, declaration, contact_uncached, contact_uncached] at contact

theorem value_of_declaration (same : m'.declaration = m.declaration) :
    m'.uncached.value = m.uncached.value := by
  have value : m'.declaration.value = m.declaration.value := congrArg Model.value same
  exact value

theorem declaration_of_uncached (same : m'.uncached = m.uncached) :
    m'.declaration = m.declaration := by
  simp only [declaration, same]

theorem pending?_uncached (m : Model β α) : m.uncached.pending? =
    match m.source with
    | .written => none
    | .computed calculator => some calculator := by
  unfold pending? uncached
  cases source : m.source <;> simp [source]

end Model

namespace Region

variable [BaseScalar β] [Scalar α] [Precision β α] {r r' : Region β α} {changed : String → Prop}
  {d : Domain} {name : String} {m : Model β α}

/-- The answer to a question has nothing to do with the changed names. -/
structure Untouched (r r' : Region β α) (changed : String → Prop) (q : Question) : Prop where
  name : ¬changed q.name
  base : ∀ base s, Suffix.split? q.name = some (base, s) → ¬changed base
  ends : ∀ y, q = .model y → ∀ source, ReadsEdgeEnd y source →
    r.models.contains source.1 source.2 = false ∧ r'.models.contains source.1 source.2 = false

/-- Two regions with the same declarations but for the changed names, on which the others do not
depend. -/
structure Agree (r r' : Region β α) (changed : String → Prop) : Prop where
  mesh : r'.mesh = r.mesh
  chunking : r'.chunking = r.chunking
  parameters : ∀ name, ¬changed name → r'.parameter? name = r.parameter? name
  models : ∀ d name, ¬changed name →
    (r'.models.get? d name).map Model.declaration = (r.models.get? d name).map Model.declaration
  contacts : ∀ {d name m contact}, ¬changed name → r.models.get? d name = some m →
    m.contact = some contact → r'.contacts.get? contact = r.contacts.get? contact
  expressed : ∀ {d name m calculator}, ¬changed name → r.models.get? d name = some m →
    m.source = .computed calculator → ∃ functions e, calculator = Calculator.ofExpr functions e ∧
      ∀ leaf ∈ e.leaves, Untouched r r' changed leaf

namespace Agree

variable (agree : Agree r r' changed)

include agree

theorem contains (d : Domain) (unchanged : ¬changed name) :
    r'.models.contains d name = r.models.contains d name := by
  have same := congrArg Option.isSome (agree.models d name unchanged)
  rwa [Option.isSome_map, Option.isSome_map] at same

theorem resolve? {y : String} (untouched : Untouched r r' changed (.model y)) :
    r'.resolve? y = r.resolve? y := by
  refine resolve?_congr agree.mesh agree.chunking (fun d => agree.contains d untouched.name) ?_ ?_
  · exact fun base s split => agree.contains .node (untouched.base base s split)
  · intro source ends
    obtain ⟨absent, absent'⟩ := untouched.ends y rfl source ends
    rw [absent, absent']

omit agree [BaseScalar β] [Precision β α] in
/-- The model that answers an untouched question is not a changed one. -/
theorem source_unchanged {y : String} {found : Resolution α}
    (untouched : Untouched r r' changed (.model y)) (resolved : r.resolve? y = some found) :
    ¬changed found.source.2 := by
  obtain ⟨present, own | ⟨s, split, -⟩ | ends⟩ := source_of_resolve? resolved
  · rw [own]
    exact untouched.name
  · exact untouched.base _ s split
  · rw [(untouched.ends y rfl _ ends).1] at present
    cases present

theorem settle {target : Target} (unchanged : ¬changed name)
    (found : r.models.get? d name = some m) (contact : target.contact = m.contact) :
    r'.uncached.settle target = (r.uncached.settle target : Outcome α → _) := by
  have nodes : r'.restriction target.contact = r.restriction target.contact := by
    rw [contact]
    cases attached : m.contact with
    | none => rfl
    | some name => simp only [restriction, agree.contacts unchanged found attached]
  funext outcome
  change (do ModelStore.checked target (← r'.restriction target.contact) outcome.result) = _
  rw [nodes]
  rfl

theorem cases (unchanged : ¬changed name) (d : Domain) :
    (r.uncached.models.get? d name = none ∧ r'.uncached.models.get? d name = none) ∨
    ∃ m m' : Model β α, r.models.get? d name = some m ∧ r.uncached.models.get? d name = some m.uncached ∧
      r'.uncached.models.get? d name = some m'.uncached ∧ m'.declaration = m.declaration := by
  have same := agree.models d name unchanged
  simp only [uncached, ModelStore.get?_uncached]
  cases found : r.models.get? d name with
  | none =>
    rw [found] at same
    exact .inl ⟨rfl, by rw [Option.map_eq_none_iff.mp same]; rfl⟩
  | some m =>
    rw [found] at same
    obtain ⟨m', found', same⟩ := Option.map_eq_some_iff.mp same
    exact .inr ⟨m, m', rfl, rfl, by rw [found']; rfl, same⟩

/-- Untouched questions have the same answers when models of unchanged names have the same values. -/
theorem answerWith_eq {y : String} (untouched : Untouched r r' changed (.model y))
    {value value' : Domain → String → Option (Except ModelError (Field α))}
    (same : ∀ d name, ¬changed name → value' d name = value d name) :
    r'.uncached.answerWith value' y = r.uncached.answerWith value y := by
  rw [answerWith, answerWith, resolve?_uncached, resolve?_uncached, agree.resolve? untouched]
  cases resolved : r.resolve? y with
  | none => rfl
  | some found => simp only [same _ _ (source_unchanged untouched resolved)]

/-- Recomputation gives the same values of all names but the changed ones. -/
theorem valueWithin_eq (j : Nat) (d : Domain) (name : String) (unchanged : ¬changed name) :
    r'.uncached.valueWithin j d name = r.uncached.valueWithin j d name := by
  -- By the depth: what an untouched model asks for is untouched, and agrees one level down.
  induction j using Nat.strongRecOn generalizing d name with
  | _ j ih =>
    rcases agree.cases unchanged d with ⟨missing, missing'⟩ | ⟨m, m', found, start, start', same⟩
    · rw [valueWithin_of_missing missing, valueWithin_of_missing missing']
    have pending' : m'.uncached.pending? = m.uncached.pending? := by
      rw [Model.pending?_uncached, Model.pending?_uncached, Model.source_of_declaration same]
    cases pending : m.uncached.pending? with
    | none =>
      rw [valueWithin_of_settled start pending, valueWithin_of_settled start' (pending'.trans pending),
        Model.value_of_declaration same]
    | some calculator =>
      cases j with
      | zero => rw [valueWithin_zero start pending, valueWithin_zero start' (pending'.trans pending)]
      | succ j =>
        have computed := (Model.pending?_eq_some_iff.mp pending).1
        rw [Model.source_uncached] at computed
        obtain ⟨functions, e, rfl, untouched⟩ := agree.expressed unchanged found computed
        have target : r'.uncached.targetOf d name m'.uncached =
            r.uncached.targetOf d name m.uncached := by
          simp only [targetOf, Model.contact_uncached, Model.contact_of_declaration same]
          simp only [uncached, size, agree.mesh]
        have surroundings : r'.uncached.surroundings = r.uncached.surroundings := by
          simp only [Region.surroundings, uncached, agree.mesh, agree.chunking]
        rw [valueWithin_succ start pending, valueWithin_succ start' (pending'.trans pending), target,
          surroundings, agree.settle unchanged found Model.contact_uncached]
        congr 1
        refine Query.run_option_congr (Calculator.meets_ofExpr functions e _ _) ?_ ?_
        · exact fun y leaf => agree.answerWith_eq (untouched _ leaf) (ih j (by omega))
        · exact fun p leaf => agree.parameters p (untouched _ leaf).name

end Agree

end Region

end FiniteVolume
