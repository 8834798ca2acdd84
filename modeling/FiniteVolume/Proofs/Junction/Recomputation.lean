import FiniteVolume.Proofs.Model.Coupled
import FiniteVolume.Proofs.Model.Frame

/-!
What a read of an interface means, apart from what is cached.

`Junction.valueWithin` computes a model of an interface from the declarations and from what the regions
answer (`Outside`), without storing anything. It gives nothing when the nesting is deeper than allowed,
nor where a region meets a cycle. Two interfaces with the same declarations but for some names, on which
the others do not depend, give the others the same values (`Junction.Agree.valueWithin_eq`).
-/
namespace FiniteVolume

variable {β α : Type}

/-- What an interface learns of its regions: the answers to names of which it has no model, none where a
region meets a cycle, and the parameters. -/
structure Outside (β α : Type) where
  answer : String → Option (LookupResult α)
  parameter : String → Option β

namespace Junction

/-- The same declarations with nothing computed and no region seen yet. -/
def uncached (j : Junction β α) : Junction β α :=
  { j with models := j.models.uncached, seen := none, notes := [] }

theorem uncached_uncached (j : Junction β α) : j.uncached.uncached = j.uncached := by
  simp [uncached, ModelStore.uncached_uncached]

def targetOf (j : Junction β α) (name : String) (m : Model β α) : Target :=
  ⟨name, .node, j.size, m.contact⟩

def Computes (j : Junction β α) (name : String) (calculator : Calculator β α) : Prop :=
  ∃ m, j.models.get? .node name = some m ∧ m.source = .computed calculator

section

variable [BaseScalar β] [Scalar α] [Precision β α] {j : Junction β α} {name : String}

/-- The models are computed from expressions that read no other models of the interface than these, and
no variables that have the name of one. -/
def Clear (j : Junction β α) (among : String → Prop) : Prop :=
  ∀ {name calculator}, among name → j.Computes name calculator →
    ∃ functions e, calculator = .ofExpr functions e ∧ (∀ y, .model y ∈ e.leaves → among y) ∧
      ∀ p, .parameter p ∈ e.leaves → j.models.contains .node p = false

/-- No variable that the model reads, itself or through other models of the interface, has the name of
a model of the interface. -/
def Unshadowed (j : Junction β α) (name : String) : Prop := ∃ among, among name ∧ j.Clear among

theorem clear_unshadowed : j.Clear j.Unshadowed := by
  rintro name calculator ⟨among, member, clear⟩ computes
  obtain ⟨functions, e, same, models, free⟩ := clear member computes
  exact ⟨functions, e, same, fun y leaf => ⟨among, models y leaf, clear⟩, free⟩

/-- The models are computed from expressions that read no other models of the interface than these. -/
def Expressed (j : Junction β α) (among : String → Prop) : Prop :=
  ∀ {name calculator}, among name → j.Computes name calculator →
    ∃ functions e, calculator = .ofExpr functions e ∧ ∀ y, .model y ∈ e.leaves → among y

theorem expressed_unshadowed : j.Expressed j.Unshadowed := fun unshadowed computes =>
  let ⟨functions, e, same, models, _⟩ := clear_unshadowed unshadowed computes
  ⟨functions, e, same, models⟩

/-- An expression without names of models of the interface is not shadowed. -/
theorem unshadowed_declare {functions : Registry α} {e : Expr β}
    (free : ∀ leaf ∈ e.leaves, leaf.name ≠ name ∧ j.models.contains .node leaf.name = false) :
    (j.declare name (.ofExpr functions e)).Unshadowed name := by
  have entry : ∀ y, (j.declare name (.ofExpr functions e)).models.get? .node y = _ := fun _ =>
    ModelStore.get?_declare (.ofExpr functions e) none
  have absent : ∀ leaf ∈ e.leaves,
      (j.declare name (.ofExpr functions e)).models.get? .node leaf.name = none := by
    intro leaf member
    obtain ⟨other, absent⟩ := free leaf member
    rw [entry, if_neg (by simp [other]), Option.map_eq_none_iff]
    exact Option.isSome_eq_false_iff.mp absent |> Option.isNone_iff_eq_none.mp
  refine ⟨fun y => y = name ∨ ∃ leaf ∈ e.leaves, y = leaf.name, .inl rfl, ?_⟩
  rintro y calculator (rfl | ⟨leaf, member, rfl⟩) ⟨m, found, computed⟩
  · rw [entry, if_pos rfl] at found
    cases found
    cases computed
    refine ⟨functions, e, rfl, fun y leaf => .inr ⟨_, leaf, rfl⟩, fun p leaf => ?_⟩
    exact congrArg Option.isSome (absent _ leaf)
  · rw [absent leaf member] at found
    cases found

end

theorem computes_declare (j : Junction β α) (name : String) (calculator : Calculator β α) :
    (j.declare name calculator).Computes name calculator :=
  ⟨_, (ModelStore.get?_declare calculator none).trans (if_pos rfl), rfl⟩

/-! ## Values -/

section

/-- The answer to a name when models have the given values. -/
def answerWith (j : Junction β α) (o : Outside β α)
    (value : String → Option (Except ModelError (Field α))) (name : String) :
    Option (LookupResult α) :=
  if j.models.contains .node name then (value name).map (·.map fun data => some ⟨.node, data⟩)
  else o.answer name

variable [Scalar α]

/-- The values of a model, computed with at most `depth` nested computations. -/
def valueWithin (j : Junction β α) (o : Outside β α) :
    (depth : Nat) → String → Option (Except ModelError (Field α))
  | depth, name =>
    match j.models.get? .node name with
    | none => some (.error (.missingModel .node name))
    | some m =>
      match m.source with
      | .written => some (m.value.elim (.error (.missingModel .node name)) .ok)
      | .computed calculator =>
        match depth with
        | 0 => none
        | depth + 1 =>
          ((calculator.calculate j.surroundings (j.targetOf name m)).run
            (j.answerWith o (j.valueWithin o depth)) (fun p => some (o.parameter p))).map
              fun outcome => ModelStore.checked (j.targetOf name m) none outcome.result

/-- The values of a model, however deep its computation nests. -/
def Yields (j : Junction β α) (o : Outside β α) (name : String)
    (result : Except ModelError (Field α)) : Prop :=
  ∃ depth, j.valueWithin o depth name = some result

def Answers (j : Junction β α) (o : Outside β α) (name : String) (answer : LookupResult α) : Prop :=
  ∃ depth, j.answerWith o (j.valueWithin o depth) name = some answer

variable {j : Junction β α} {o : Outside β α} {name : String} {m : Model β α}
  {calculator : Calculator β α} {i k : Nat} {result result' : Except ModelError (Field α)}

theorem valueWithin_of_missing (missing : j.models.get? .node name = none) :
    j.valueWithin o i name = some (.error (.missingModel .node name)) := by
  unfold valueWithin
  rw [missing]

theorem valueWithin_of_written (found : j.models.get? .node name = some m)
    (written : m.source = .written) :
    j.valueWithin o i name = some (m.value.elim (.error (.missingModel .node name)) .ok) := by
  unfold valueWithin
  simp [found, written]

theorem valueWithin_zero (found : j.models.get? .node name = some m)
    (computed : m.source = .computed calculator) : j.valueWithin o 0 name = none := by
  unfold valueWithin
  simp [found, computed]

theorem valueWithin_succ (found : j.models.get? .node name = some m)
    (computed : m.source = .computed calculator) :
    j.valueWithin o (i + 1) name =
      ((calculator.calculate j.surroundings (j.targetOf name m)).run
        (j.answerWith o (j.valueWithin o i)) (fun p => some (o.parameter p))).map
          fun outcome => ModelStore.checked (j.targetOf name m) none outcome.result := by
  rw [valueWithin]
  simp [found, computed]

omit [Scalar α] in
theorem answerWith_mono {value value' : String → Option (Except ModelError (Field α))}
    (more : ∀ name result, value name = some result → value' name = some result)
    {answer : LookupResult α} (answered : j.answerWith o value name = some answer) :
    j.answerWith o value' name = some answer := by
  unfold answerWith at answered ⊢
  split
  next present =>
    rw [if_pos present] at answered
    obtain ⟨result, computed, rfl⟩ := Option.map_eq_some_iff.mp answered
    exact Option.map_eq_some_iff.mpr ⟨result, more _ _ computed, rfl⟩
  next absent => rwa [if_neg absent] at answered

theorem valueWithin_mono (le : i ≤ k) (computed : j.valueWithin o i name = some result) :
    j.valueWithin o k name = some result := by
  induction i generalizing k name result with
  | zero =>
    unfold valueWithin at computed ⊢
    split
    next missing => simpa [missing] using computed
    next m found =>
      cases source : m.source with
      | written => simpa [found, source] using computed
      | computed calculator => simp [found, source] at computed
  | succ i ih =>
    obtain ⟨k, rfl⟩ : ∃ l, k = l + 1 := ⟨k - 1, by omega⟩
    cases found : j.models.get? .node name with
    | none => rwa [valueWithin_of_missing found] at computed ⊢
    | some m =>
      cases source : m.source with
      | written => rwa [valueWithin_of_written found source] at computed ⊢
      | computed calculator =>
        rw [valueWithin_succ found source] at computed ⊢
        obtain ⟨outcome, ran, rfl⟩ := Option.map_eq_some_iff.mp computed
        refine Option.map_eq_some_iff.mpr ⟨outcome, ?_, rfl⟩
        rw [Query.run_option_eq_some_iff] at ran ⊢
        exact ran.mono fun name a => answerWith_mono fun name result => ih (by omega)

theorem valueWithin_eq_none (le : i ≤ k) (undefined : j.valueWithin o k name = none) :
    j.valueWithin o i name = none := by
  cases defined : j.valueWithin o i name with
  | none => rfl
  | some result =>
    rw [valueWithin_mono le defined] at undefined
    cases undefined

theorem Yields.unique (first : j.Yields o name result) (second : j.Yields o name result') :
    result = result' := by
  obtain ⟨i, computed⟩ := first
  obtain ⟨k, computed'⟩ := second
  have left := valueWithin_mono (Nat.le_max_left i k) computed
  have right := valueWithin_mono (Nat.le_max_right i k) computed'
  exact Option.some.inj (left.symm.trans right)

theorem answers_of_yields (present : j.models.contains .node name = true)
    (yields : j.Yields o name result) :
    j.Answers o name (result.map fun data => some ⟨.node, data⟩) := by
  obtain ⟨depth, computed⟩ := yields
  exact ⟨depth, by simp [answerWith, present, computed]⟩

theorem answers_of_outside (absent : j.models.contains .node name = false) {answer : LookupResult α}
    (answered : o.answer name = some answer) : j.Answers o name answer :=
  ⟨0, by simp [answerWith, absent, answered]⟩

@[simp] theorem valueWithin_uncached : j.uncached.valueWithin o i name = j.valueWithin o i name := by
  induction i using Nat.strongRecOn generalizing name with
  | _ i ih =>
    have entry : j.uncached.models.get? .node name = (j.models.get? .node name).map Model.uncached :=
      ModelStore.get?_uncached
    cases found : j.models.get? .node name with
    | none =>
      rw [found] at entry
      rw [valueWithin_of_missing found, valueWithin_of_missing entry]
    | some m =>
      rw [found] at entry
      cases kind : m.source with
      | written =>
        rw [Option.map_some, Model.uncached_of_written kind] at entry
        rw [valueWithin_of_written found kind, valueWithin_of_written entry kind]
      | computed calculator =>
        have kind' := Model.source_uncached.trans kind
        cases i with
        | zero => rw [valueWithin_zero found kind, valueWithin_zero entry kind']
        | succ i =>
          have answers : j.uncached.answerWith o (j.uncached.valueWithin o i) =
              j.answerWith o (j.valueWithin o i) := by
            funext y
            rw [answerWith, answerWith, ih i (by omega), uncached, ModelStore.contains_uncached]
          have target : j.uncached.targetOf name m.uncached = j.targetOf name m := by
            rw [targetOf, Model.contact_uncached]
            rfl
          rw [valueWithin_succ found kind, valueWithin_succ entry kind', answers, target]
          rfl

theorem yields_of_uncached_eq {j' : Junction β α} (same : j'.uncached = j.uncached) :
    j'.Yields o name result ↔ j.Yields o name result := by
  refine exists_congr fun depth => ?_
  rw [← valueWithin_uncached, same, valueWithin_uncached]

/-- A calculation all of whose questions have defined answers gives the values of its model. -/
theorem yields_of_returns (found : j.models.get? .node name = some m)
    (computed : m.source = .computed calculator) {outcome : Outcome α}
    (returns : (calculator.calculate j.surroundings (j.targetOf name m)).Returns (j.Answers o)
      o.parameter outcome) :
    j.Yields o name (ModelStore.checked (j.targetOf name m) none outcome.result) := by
  have grow : ∀ i k name a, i ≤ k → j.answerWith o (j.valueWithin o i) name = some a →
      j.answerWith o (j.valueWithin o k) name = some a := fun i k name a le =>
    answerWith_mono fun name result => valueWithin_mono le
  obtain ⟨depth, bounded⟩ := Query.Returns.bounded grow returns
  refine ⟨depth + 1, ?_⟩
  rw [valueWithin_succ found computed, Query.run_option_eq_some_iff.mpr bounded]
  rfl

end

/-! ## What a change leaves of the values -/

section

variable [BaseScalar β] [Scalar α] [Precision β α] {j j' : Junction β α} {o o' : Outside β α}
  {kept : String → Prop} {name : String}

/-- Kept names that read kept names only are shadowed in the one interface if in the other. -/
theorem Unshadowed.transfer
    (computes : ∀ {name calculator}, kept name → j'.Computes name calculator →
      j.Computes name calculator)
    (reads : ∀ {name functions e leaf}, kept name → j'.Computes name (.ofExpr functions e) →
      leaf ∈ e.leaves → kept leaf.name)
    (absent : ∀ {name}, kept name → j.models.contains .node name = false →
      j'.models.contains .node name = false)
    (isKept : kept name) (unshadowed : j.Unshadowed name) : j'.Unshadowed name := by
  refine ⟨fun y => kept y ∧ j.Unshadowed y, ⟨isKept, unshadowed⟩, ?_⟩
  rintro name calculator ⟨isKept, unshadowed⟩ computed
  obtain ⟨functions, e, rfl, models, free⟩ :=
    clear_unshadowed unshadowed (computes isKept computed)
  exact ⟨functions, e, rfl, fun y leaf => ⟨reads isKept computed leaf, models y leaf⟩,
    fun p leaf => absent (reads isKept computed leaf) (free p leaf)⟩

omit [BaseScalar β] [Scalar α] [Precision β α] in
theorem Computes.of_uncached_eq (same : j'.uncached = j.uncached) {calculator : Calculator β α}
    (computes : j.Computes name calculator) : j'.Computes name calculator := by
  obtain ⟨m, found, computed⟩ := computes
  obtain ⟨m', found', equal⟩ := ModelStore.get?_of_uncached_eq
    (congrArg Junction.models same) found
  exact ⟨m', found', (Model.source_of_uncached equal).trans computed⟩

theorem Unshadowed.of_uncached_eq (same : j'.uncached = j.uncached)
    (unshadowed : j.Unshadowed name) : j'.Unshadowed name := by
  have absent : ∀ {name}, True → j.models.contains .node name = false →
      j'.models.contains .node name = false := fun _ absent => by
    rwa [ModelStore.contains_of_uncached_eq (congrArg Junction.models same)]
  exact unshadowed.transfer (fun _ => .of_uncached_eq same.symm) (fun _ _ _ => trivial) absent trivial

/-- The question has the same answer, as far as models of kept names have the same values. -/
def Told (j : Junction β α) (o o' : Outside β α) (kept : String → Prop) : Question → Prop
  | .model y => kept y ∧ (j.models.contains .node y = true ∨ o'.answer y = o.answer y)
  | .parameter p => o'.parameter p = o.parameter p

/-- Two interfaces with the same declarations of the kept names, for which they are told the same. -/
structure Agree (j j' : Junction β α) (o o' : Outside β α) (kept : String → Prop) : Prop where
  size : j'.size = j.size
  chunking : j'.chunking = j.chunking
  models : ∀ name, kept name → (j'.models.get? .node name).map Model.declaration =
    (j.models.get? .node name).map Model.declaration
  leaves : ∀ {name m calculator}, kept name → j.models.get? .node name = some m →
    m.source = .computed calculator → ∃ functions e, calculator = .ofExpr functions e ∧
      ∀ leaf ∈ e.leaves, Told j o o' kept leaf

namespace Agree

variable (agree : Agree j j' o o' kept)

include agree

theorem contains (isKept : kept name) :
    j'.models.contains .node name = j.models.contains .node name := by
  have same := congrArg Option.isSome (agree.models name isKept)
  rwa [Option.isSome_map, Option.isSome_map] at same

theorem valueWithin_eq (i : Nat) (isKept : kept name) :
    j'.valueWithin o' i name = j.valueWithin o i name := by
  -- By the depth: a calculation reads kept names only, which agree one level down.
  induction i using Nat.strongRecOn generalizing name with
  | _ i ih =>
    have same := agree.models name isKept
    cases found : j.models.get? .node name with
    | none =>
      rw [found] at same
      rw [valueWithin_of_missing found, valueWithin_of_missing (Option.map_eq_none_iff.mp same)]
    | some m =>
      rw [found] at same
      obtain ⟨m', found', same⟩ := Option.map_eq_some_iff.mp same
      have source := Model.source_of_declaration same
      cases kind : m.source with
      | written =>
        have value := Model.value_of_declaration same
        rw [Model.uncached_of_written kind, Model.uncached_of_written (source.trans kind)] at value
        rw [valueWithin_of_written found kind, valueWithin_of_written found' (source.trans kind), value]
      | computed calculator =>
        cases i with
        | zero => rw [valueWithin_zero found kind, valueWithin_zero found' (source.trans kind)]
        | succ i =>
          obtain ⟨functions, e, rfl, told⟩ := agree.leaves isKept found kind
          have target : j'.targetOf name m' = j.targetOf name m := by
            rw [targetOf, targetOf, agree.size, Model.contact_of_declaration same]
          have surroundings : j'.surroundings = j.surroundings := by
            rw [Junction.surroundings, Junction.surroundings, agree.chunking]
          rw [valueWithin_succ found kind, valueWithin_succ found' (source.trans kind), target,
            surroundings]
          congr 1
          refine Query.run_option_congr (Calculator.meets_ofExpr functions e _ _) ?_ ?_
          · intro y leaf
            obtain ⟨keptLeaf, answered⟩ := told _ leaf
            rw [answerWith, answerWith, agree.contains keptLeaf, ih i (by omega) keptLeaf]
            split
            · rfl
            next absent => exact answered.resolve_left absent
          · exact fun p leaf => told _ leaf

end Agree

end

end Junction

end FiniteVolume
