import FiniteVolume.Proofs.Expression.Recomputation
import FiniteVolume.Proofs.Numeric.Exact
import Mathlib.Data.List.Nodup

/-!
What is remembered during an evaluation.

An evaluation that remembers values finds what `Expr.recompute` finds, as long as subtrees of one key
evaluate alike: the same value, and the same faults, those of a repeated subtree recorded once
(`Expr.follows_eval`). A model with finite values is asked for once (`Expr.sparing_eval`).
-/
namespace FiniteVolume

variable {β α ρ σ : Type}

namespace Context

variable (c : Context β α)

theorem trace_pure (r : ρ) : c.trace (pure r) = (r, []) := rfl

theorem trace_bind (q : Query β α ρ) (f : ρ → Query β α σ) :
    c.trace (q >>= f) = ((c.trace (f (c.trace q).1)).1,
      (c.trace q).2 ++ (c.trace (f (c.trace q).1)).2) := by
  induction q with
  | done r => rfl
  | lookup name next ih =>
    change ((c.trace (next (c.lookup name) >>= f)).1,
      name :: (c.trace (next (c.lookup name) >>= f)).2) = _
    rw [ih]
    rfl
  | parameter name next ih => exact ih _

theorem answer_bind (q : Query β α ρ) (f : ρ → Query β α σ) :
    c.answer (q >>= f) = c.answer (f (c.answer q)) := by
  rw [← trace_fst, trace_bind, trace_fst, trace_fst]

end Context

/-! ## Subtrees -/

namespace Expr

mutual

/-- The subtrees whose values are remembered, the tree itself first: all but literals and fragments
without meaning. -/
def subtrees : Expr β → List (Expr β)
  | constant _ | invalid _ => []
  | parameter n => [parameter n]
  | model n => [model n]
  | sum xs => sum xs :: subtreesOfList xs
  | product xs => product xs :: subtreesOfList xs
  | ifThen c t => ifThen c t :: (subtrees c ++ subtrees t)
  | ifElse c t e => ifElse c t e :: (subtrees c ++ subtrees t ++ subtrees e)
  | call n xs => call n xs :: subtreesOfList xs

def subtreesOfList : List (Expr β) → List (Expr β)
  | [] => []
  | x :: xs => subtrees x ++ subtreesOfList xs

end

def DistinctKeys [BaseScalar β] (e : Expr β) : Prop :=
  ∀ x ∈ e.subtrees, ∀ y ∈ e.subtrees, x.key = y.key → x = y

theorem distinctKeys_of_nodup [BaseScalar β] {e : Expr β} (trees : List (Expr β))
    (within : e.subtrees ⊆ trees) (nodup : (trees.map key).Nodup) : e.DistinctKeys :=
  fun _ inX _ inY same => List.inj_on_of_nodup_map nodup (within inX) (within inY) same

end Expr

variable [BaseScalar β] [Scalar α]

/-! ## Steps -/

namespace Eval

section

variable (e : Expr β) (body : Eval β α (Value α)) {s : Session α}

/-- What becomes of the value of an expression: it is remembered unless it is a fault. -/
def keep (v : Value α) (s : Session α) : Value α × Session α :=
  if !v.isFinite then (.invalid, { s with errors := s.errors ++ [.nonFinite e.text] })
  else (v, if v.isInvalid then s else { s with remembered := (e.key, v) :: s.remembered })

omit [BaseScalar β] [Scalar α] in
theorem run_get_bind {ρ : Type} (f : Session α → Eval β α ρ) :
    ((get : Eval β α (Session α)) >>= f).run s = (f s).run s := rfl

theorem run_remember_of_hit {v : Value α} (hit : s.remembered.lookup e.key = some v) :
    (remember e body).run s = .done (v, s) := by
  unfold remember
  rw [run_get_bind]
  simp only [hit]
  rfl

theorem run_remember_of_miss (miss : s.remembered.lookup e.key = none) :
    (remember e body).run s = body.run s >>= fun r => .done (keep e r.1 r.2) := by
  unfold remember
  rw [run_get_bind]
  simp only [miss]
  refine congrArg (body.run s >>= ·) (funext fun r => ?_)
  unfold keep
  cases finite : r.1.isFinite <;> cases invalid : r.1.isInvalid <;> simp [finite, invalid] <;> rfl

end

/-! ## Values and faults -/

/-- What is remembered belongs to one of the trees: its value, with its faults on record. -/
def Faithful [Precision β α] (c : Context β α) (functions : Registry α) (trees : List (Expr β))
    (s : Session α) : Prop :=
  ∀ entry ∈ s.remembered, ∃ x ∈ trees, x.key = entry.1 ∧
    (x.recompute c functions).result = entry.2 ∧ (x.recompute c functions).errors ⊆ s.errors

def Alike [Precision β α] (c : Context β α) (functions : Registry α) (trees : List (Expr β)) : Prop :=
  ∀ x ∈ trees, ∀ y ∈ trees, x.key = y.key → x.recompute c functions = y.recompute c functions

/-- In faithful sessions a step finds what the second computation finds. It records some of the same
faults in the same order, and those that it leaves out are on record already. -/
def Follows [Precision β α] (c : Context β α) (functions : Registry α) (trees : List (Expr β))
    (m : Eval β α ρ) (found : Findings ρ) : Prop :=
  ∀ s, Faithful c functions trees s → ∃ s', c.answer (m.run s) = (found.result, s') ∧
    Faithful c functions trees s' ∧ found.errors ⊆ s'.errors ∧
    ∃ added, s'.errors = s.errors ++ added ∧ added.Sublist found.errors

section

variable [Precision β α] {c : Context β α} {functions : Registry α} {trees : List (Expr β)}

theorem Faithful.append {s : Session α} (faithful : Faithful c functions trees s)
    (added : List EvalError) :
    Faithful c functions trees { s with errors := s.errors ++ added } := by
  intro entry member
  obtain ⟨x, inTrees, key, value, recorded⟩ := faithful entry member
  exact ⟨x, inTrees, key, value, fun error found => List.mem_append_left _ (recorded found)⟩

theorem follows_pure (r : ρ) : Follows c functions trees (pure r : Eval β α ρ) (pure r) :=
  fun s faithful => ⟨s, rfl, faithful, List.nil_subset _, [], (List.append_nil _).symm, .slnil⟩

theorem Follows.bind {m : Eval β α ρ} {found : Findings ρ} {f : ρ → Eval β α σ}
    {g : ρ → Findings σ} (first : Follows c functions trees m found)
    (next : Follows c functions trees (f found.result) (g found.result)) :
    Follows c functions trees (m >>= f) (found >>= g) := by
  intro s faithful
  obtain ⟨s₁, ran, faithful₁, recorded₁, added₁, errors₁, sublist₁⟩ := first s faithful
  obtain ⟨s₂, ran₂, faithful₂, recorded₂, added₂, errors₂, sublist₂⟩ := next s₁ faithful₁
  refine ⟨s₂, ?_, faithful₂, ?_, added₁ ++ added₂, ?_, sublist₁.append sublist₂⟩
  · change c.answer (m.run s >>= fun r => (f r.1).run r.2) = _
    rw [Context.answer_bind, ran]
    exact ran₂
  · intro error found
    rcases List.mem_append.mp found with early | late
    · rw [errors₂]
      exact List.mem_append_left _ (recorded₁ early)
    · exact recorded₂ late
  · rw [errors₂, errors₁, List.append_assoc]

theorem follows_fail (e : EvalError) :
    Follows c functions trees (fail e : Eval β α (Value α)) (.fail e) := fun _ faithful =>
  ⟨_, rfl, faithful.append [e], List.subset_append_right _ _, [e], rfl, .refl _⟩

theorem follows_ofExcept (r : Except EvalError (Value α)) :
    Follows c functions trees (ofExcept r : Eval β α (Value α)) (.ofExcept r) := by
  cases r with
  | ok v => exact follows_pure v
  | error e => exact follows_fail e

theorem follows_apply (context : String) (f : Function α) (args : List (Value α))
    (reporting : Bool) : Follows c functions trees
      (apply c.surroundings context f args reporting : Eval β α (Value α))
      (.apply c context f args reporting) := by
  have elementwise : Follows c functions trees
      (if args.any (·.isInvalid) then
          if reporting then fail (.invalidArgument context) else return .invalid
        else ofExcept do
          Value.applyTo c.surroundings.chunking context f
            (← Value.operands c.surroundings context args) : Eval β α (Value α))
      (if args.any (·.isInvalid) then
          if reporting then .fail (.invalidArgument context) else return .invalid
        else .ofExcept do
          Value.applyTo c.surroundings.chunking context f
            (← Value.operands c.surroundings context args)) := by
    split
    · split
      · exact follows_fail _
      · exact follows_pure _
    · exact follows_ofExcept _
  cases f with
  | reduction r => exact follows_ofExcept _
  | unary f => exact elementwise
  | binary f => exact elementwise
  | ternary f => exact elementwise

theorem Follows.ask {f : LookupResult α → Eval β α ρ} {found : Findings ρ} (name : String)
    (follows : Follows c functions trees (f (c.lookup name)) found) :
    Follows c functions trees ((Query.ask name : Query β α _) >>= f : Eval β α ρ) found :=
  fun s => follows s

theorem Follows.askParameter {f : Option β → Eval β α ρ} {found : Findings ρ} (name : String)
    (follows : Follows c functions trees (f (c.parameter name)) found) :
    Follows c functions trees ((Query.askParameter name : Query β α _) >>= f : Eval β α ρ) found :=
  fun s => follows s

theorem follows_model (name : String) :
    Follows c functions trees (model name : Eval β α (Value α)) (.model c name) := by
  unfold model Findings.model
  refine .ask name ?_
  rcases c.lookup name with cause | _ | found
  · exact follows_fail _
  · exact follows_fail _
  · exact follows_pure _

theorem follows_parameter (name : String) :
    Follows c functions trees (parameter name : Eval β α (Value α)) (.parameter c name) := by
  unfold parameter Findings.parameter
  refine .askParameter name ?_
  cases c.parameter name with
  | none => exact follows_fail _
  | some v => exact follows_pure _

theorem Faithful.remember {e : Expr β} {s : Session α} (faithful : Faithful c functions trees s)
    (inTrees : e ∈ trees) (recorded : (e.recompute c functions).errors ⊆ s.errors) :
    Faithful c functions trees
      { s with remembered := (e.key, (e.recompute c functions).result) :: s.remembered } := by
  intro entry member
  rcases List.mem_cons.mp member with rfl | earlier
  · exact ⟨e, inTrees, rfl, rfl, recorded⟩
  · exact faithful entry earlier

/-- A value that is remembered is that of the expression, and its faults are on record. -/
theorem Follows.remember {e : Expr β} {body : Eval β α (Value α)} {found : Findings (Value α)}
    (alike : Alike c functions trees) (inTrees : e ∈ trees)
    (screened : e.recompute c functions = .screen e found)
    (follows : Follows c functions trees body found) :
    Follows c functions trees (remember e body) (e.recompute c functions) := by
  intro s faithful
  cases looked : s.remembered.lookup e.key with
  | some v =>
    have entry : (e.key, v) ∈ s.remembered := by
      obtain ⟨before, after, split, -⟩ := List.lookup_eq_some_iff.mp looked
      simp [split]
    -- What is remembered belongs to a tree of this key, and such trees evaluate alike.
    obtain ⟨x, member, key, value, recorded⟩ := faithful _ entry
    rw [alike x member e inTrees key] at value recorded
    refine ⟨s, ?_, faithful, recorded, [], (List.append_nil _).symm, List.nil_sublist _⟩
    rw [run_remember_of_hit e body looked, value]
    rfl
  | none =>
    obtain ⟨s', ran, faithful', recorded, added, errors, sublist⟩ := follows s faithful
    have kept : c.answer ((Eval.remember e body).run s) = keep e found.result s' := by
      rw [run_remember_of_miss e body looked, Context.answer_bind, ran]
      rfl
    cases finite : found.result.isFinite with
    | false =>
      rw [screened, Findings.screen, if_neg (by simp [finite])]
      simp only [keep, finite, Bool.not_false, if_true] at kept
      refine ⟨_, kept, faithful'.append _, ?_, added ++ [.nonFinite e.text], ?_,
        sublist.append (.refl _)⟩
      · exact List.append_subset.mpr ⟨fun error found => List.mem_append_left _ (recorded found),
          List.subset_append_right _ _⟩
      · simp [errors]
    | true =>
      have value : e.recompute c functions = found := by
        rw [screened, Findings.screen, if_pos finite]
      simp only [keep, finite, Bool.not_true] at kept
      rw [value]
      refine ⟨_, kept, ?_, ?_, added, ?_, sublist⟩
      · split
        · exact faithful'
        · exact value ▸ faithful'.remember inTrees (value ▸ recorded)
      · cases found.result.isInvalid <;> exact recorded
      · cases found.result.isInvalid <;> exact errors

end

/-! ## Questions -/

def held (s : Session α) (name : String) : Nat :=
  if (s.remembered.lookup name).isSome then 1 else 0

/-- A model that the context answers with finite values. -/
def Settles (c : Context β α) (name : String) : Prop :=
  ∃ found, c.lookup name = .ok (some found) ∧ found.data.isFinite = true

/-- A step asks once for a model with finite values, and not at all once its value is remembered. -/
def Sparing (c : Context β α) (m : Eval β α ρ) : Prop := ∀ s name, Settles c name →
  (c.trace (m.run s)).2.count name + held s name ≤ held (c.trace (m.run s)).1.2 name

section

variable {c : Context β α}

omit [BaseScalar β] [Scalar α] in
theorem held_le_one (s : Session α) (name : String) : held s name ≤ 1 := by
  unfold held
  split <;> simp

theorem held_le_keep (e : Expr β) (v : Value α) (s : Session α) (name : String) :
    held s name ≤ held (keep e v s).2 name := by
  unfold keep
  split
  · exact Nat.le_refl _
  · dsimp only
    split
    · exact Nat.le_refl _
    · unfold held
      rw [List.lookup_cons]
      cases name == e.key
      · exact Nat.le_refl _
      · exact held_le_one s name

omit [BaseScalar β] in
theorem sparing_of_quiet {m : Eval β α ρ}
    (quiet : ∀ s, ∃ r errors, m.run s = .done (r, { s with errors })) : Sparing c m := by
  intro s name _
  obtain ⟨r, errors, ran⟩ := quiet s
  rw [ran]
  simp only [Context.trace, List.count_nil, Nat.zero_add]
  exact Nat.le_refl _

omit [BaseScalar β] in
theorem sparing_pure (r : ρ) : Sparing c (pure r : Eval β α ρ) :=
  sparing_of_quiet fun s => ⟨r, s.errors, rfl⟩

omit [BaseScalar β] in
theorem Sparing.bind {m : Eval β α ρ} {f : ρ → Eval β α σ} (first : Sparing c m)
    (next : ∀ r, Sparing c (f r)) : Sparing c (m >>= f) := by
  intro s name settles
  change (c.trace (m.run s >>= fun r => (f r.1).run r.2)).2.count name + _ ≤
    held (c.trace (m.run s >>= fun r => (f r.1).run r.2)).1.2 name
  rw [Context.trace_bind, List.count_append]
  have before := first s name settles
  have after := next (c.trace (m.run s)).1.1 (c.trace (m.run s)).1.2 name settles
  dsimp only
  omega

omit [BaseScalar β] in
theorem sparing_fail (e : EvalError) : Sparing c (fail e : Eval β α (Value α)) :=
  sparing_of_quiet fun s => ⟨.invalid, s.errors ++ [e], rfl⟩

omit [BaseScalar β] in
theorem sparing_ofExcept (r : Except EvalError (Value α)) :
    Sparing c (ofExcept r : Eval β α (Value α)) := by
  cases r with
  | ok v => exact sparing_pure v
  | error e => exact sparing_fail e

theorem sparing_apply [Precision β α] (s : Surroundings) (context : String) (f : Function α)
    (args : List (Value α)) (reporting : Bool) :
    Sparing c (apply s context f args reporting : Eval β α (Value α)) := by
  unfold apply
  split
  · exact sparing_ofExcept _
  · split
    · split
      · exact sparing_fail _
      · exact sparing_pure _
    · exact sparing_ofExcept _

omit [BaseScalar β] in
theorem Sparing.askParameter {f : Option β → Eval β α ρ} (name : String)
    (sparing : Sparing c (f (c.parameter name))) :
    Sparing c ((Query.askParameter name : Query β α _) >>= f : Eval β α ρ) :=
  fun s => sparing s

omit [BaseScalar β] in
theorem sparing_parameter [Precision β α] (name : String) :
    Sparing c (parameter name : Eval β α (Value α)) := by
  unfold parameter
  refine .askParameter name ?_
  cases c.parameter name with
  | none => exact sparing_fail _
  | some v => exact sparing_pure _

/-- A step that asks for nothing by the time that it is remembered. -/
theorem Sparing.remember {e : Expr β} {body : Eval β α (Value α)} (sparing : Sparing c body) :
    Sparing c (remember e body) := by
  intro s name settles
  cases looked : s.remembered.lookup e.key with
  | some v =>
    rw [run_remember_of_hit e body looked]
    simp [Context.trace]
  | none =>
    rw [run_remember_of_miss e body looked, Context.trace_bind]
    have inside := sparing s name settles
    have kept := held_le_keep e (c.trace (body.run s)).1.1 (c.trace (body.run s)).1.2 name
    simp only [Context.trace, List.append_nil]
    omega

omit [BaseScalar β] [Scalar α] in
theorem trace_ask (name : String) (f : LookupResult α → Eval β α ρ) (s : Session α) :
    c.trace (((Query.ask name : Query β α _) >>= f : Eval β α ρ).run s) =
      ((c.trace ((f (c.lookup name)).run s)).1, name :: (c.trace ((f (c.lookup name)).run s)).2) := rfl

omit [BaseScalar β] [Scalar α] in
/-- Reading a model is one question, which leaves the memory alone. -/
theorem trace_model (name : String) (s : Session α) : ∃ v errors,
    c.trace ((model name : Eval β α (Value α)).run s) = ((v, { s with errors }), [name]) ∧
      ∀ found, c.lookup name = .ok (some found) → v = .field found.domain found.data := by
  unfold model
  rw [trace_ask]
  rcases c.lookup name with cause | _ | found
  · exact ⟨.invalid, s.errors ++ [.model name cause], rfl, fun _ same => by cases same⟩
  · exact ⟨.invalid, s.errors ++ [.missingModel name], rfl, fun _ same => by cases same⟩
  · exact ⟨_, s.errors, rfl, fun _ same => by cases same; rfl⟩

/-- The values of a model are remembered if they are finite, so that they are asked for once. -/
theorem sparing_remember_model (name : String) :
    Sparing c (Eval.remember (.model name) (model name) : Eval β α (Value α)) := by
  intro s other settles
  have key : (Expr.model name : Expr β).key = name := by simp [Expr.key, Expr.render]
  cases looked : s.remembered.lookup (Expr.model name : Expr β).key with
  | some v =>
    rw [run_remember_of_hit _ _ looked]
    simp [Context.trace]
  | none =>
    obtain ⟨v, errors, ran, settled⟩ := trace_model (c := c) name s
    rw [run_remember_of_miss _ _ looked, Context.trace_bind, ran]
    dsimp only [Context.trace]
    by_cases same : other = name
    · subst same
      obtain ⟨found, answered, finite⟩ := settles
      obtain rfl := settled found answered
      rw [key] at looked
      simp [keep, Value.isFinite, finite, Value.isInvalid, held, key, looked]
    · have kept := held_le_keep (.model name : Expr β) v { s with errors } other
      rw [List.count_eq_zero_of_not_mem (by simpa using same), Nat.zero_add]
      exact kept

end

end Eval

/-! ## Evaluations -/

namespace Expr

open Eval

variable [Precision β α] {c : Context β α} {functions : Registry α} {trees : List (Expr β)}

mutual

/-- An evaluation within trees of which those with one key evaluate alike. -/
theorem follows_eval (alike : Alike c functions trees) : ∀ e : Expr β, (∀ x ∈ e.subtrees, x ∈ trees) →
    Follows c functions trees (eval c.surroundings functions e) (e.recompute c functions)
  | constant _, _ => follows_pure _
  | invalid _, _ => follows_fail _
  | parameter n, within => by
    have here := within _ (List.mem_singleton.mpr rfl)
    exact (follows_parameter n).remember alike here rfl
  | model n, within => by
    have here := within _ (List.mem_singleton.mpr rfl)
    exact (follows_model n).remember alike here rfl
  | sum [], within => by
    have here := within _ List.mem_cons_self
    exact (follows_pure _).remember alike here rfl
  | sum (x :: xs), within => by
    obtain ⟨here, below⟩ := List.forall_mem_cons.mp within
    obtain ⟨head, tail⟩ := List.forall_mem_append.mp below
    exact ((follows_eval alike x head).bind (follows_evalSum alike _ xs tail)).remember alike here rfl
  | product xs, within => by
    obtain ⟨here, below⟩ := List.forall_mem_cons.mp within
    exact (follows_evalProduct alike _ xs below).remember alike here rfl
  | ifThen cond t, within => by
    obtain ⟨here, below⟩ := List.forall_mem_cons.mp within
    obtain ⟨condition, body⟩ := List.forall_mem_append.mp below
    have selected := follows_eval alike t body
    refine Follows.remember alike here rfl
      ((follows_eval alike cond condition).bind ?_)
    -- The second computation evaluates the branch that is taken and no other.
    cases (cond.recompute c functions).result with
    | invalid => exact follows_pure _
    | scalar x =>
      dsimp only
      split
      · exact follows_pure _
      · exact selected
    | field d data => exact selected.bind (follows_apply _ _ _ _)
  | ifElse cond t e, within => by
    obtain ⟨here, below⟩ := List.forall_mem_cons.mp within
    obtain ⟨both, otherwise⟩ := List.forall_mem_append.mp below
    obtain ⟨condition, body⟩ := List.forall_mem_append.mp both
    have whenTrue := follows_eval alike t body
    have whenFalse := follows_eval alike e otherwise
    refine Follows.remember alike here rfl
      ((follows_eval alike cond condition).bind ?_)
    cases (cond.recompute c functions).result with
    | invalid => exact follows_pure _
    | scalar x =>
      dsimp only
      split
      · exact whenFalse
      · exact whenTrue
    | field d data => exact whenTrue.bind (whenFalse.bind (follows_apply _ _ _ _))
  | call name args, within => by
    obtain ⟨here, below⟩ := List.forall_mem_cons.mp within
    refine Follows.remember alike here (by rw [recompute]) ?_
    cases functions.get? name with
    | none => exact follows_fail _
    | some f =>
      dsimp only
      split
      · exact follows_fail _
      · exact (follows_evalList alike args below).bind (follows_apply _ _ _ _)

theorem follows_evalList (alike : Alike c functions trees) : ∀ xs : List (Expr β),
    (∀ x ∈ subtreesOfList xs, x ∈ trees) →
    Follows c functions trees (evalList c.surroundings functions xs) (recomputeList c functions xs)
  | [], _ => follows_pure _
  | x :: xs, within => by
    obtain ⟨head, tail⟩ := List.forall_mem_append.mp within
    exact (follows_eval alike x head).bind ((follows_evalList alike xs tail).bind (follows_pure _))

theorem follows_evalSum (alike : Alike c functions trees) (total : Value α) : ∀ xs : List (Expr β),
    (∀ x ∈ subtreesOfList xs, x ∈ trees) → Follows c functions trees
      (evalSum c.surroundings functions total xs) (recomputeSum c functions total xs)
  | [], _ => follows_pure _
  | x :: xs, within => by
    obtain ⟨head, tail⟩ := List.forall_mem_append.mp within
    exact (follows_eval alike x head).bind
      ((follows_apply _ _ _ _).bind (follows_evalSum alike _ xs tail))

theorem follows_evalProduct (alike : Alike c functions trees) (total : Value α) : ∀ xs : List (Expr β),
    (∀ x ∈ subtreesOfList xs, x ∈ trees) → Follows c functions trees
      (evalProduct c.surroundings functions total xs) (recomputeProduct c functions total xs)
  | [], _ => follows_pure _
  | x :: xs, within => by
    obtain ⟨head, tail⟩ := List.forall_mem_append.mp within
    refine (follows_eval alike x head).bind ?_
    split
    · exact follows_pure _
    · exact (follows_apply _ _ _ _).bind (follows_evalProduct alike _ xs tail)

end

mutual

theorem sparing_eval (s : Surroundings) (functions : Registry α) :
    ∀ e : Expr β, Sparing c (eval s functions e)
  | constant _ => sparing_pure _
  | invalid _ => sparing_fail _
  | parameter n => (sparing_parameter n).remember
  | model n => sparing_remember_model n
  | sum [] => (sparing_pure _).remember
  | sum (x :: xs) => ((sparing_eval s functions x).bind fun v =>
      sparing_evalSum s functions v xs).remember
  | product xs => (sparing_evalProduct s functions _ xs).remember
  | ifThen cond t => by
    refine Sparing.remember ((sparing_eval s functions cond).bind fun v => ?_)
    have selected := sparing_eval s functions t
    split
    · exact sparing_pure _
    · split
      · exact sparing_pure _
      · exact selected
    · exact selected.bind fun v => sparing_apply _ _ _ _ _
  | ifElse cond t e => by
    refine Sparing.remember ((sparing_eval s functions cond).bind fun v => ?_)
    have whenTrue := sparing_eval s functions t
    have whenFalse := sparing_eval s functions e
    split
    · exact sparing_pure _
    · split
      · exact whenFalse
      · exact whenTrue
    · exact whenTrue.bind fun _ => whenFalse.bind fun _ => sparing_apply _ _ _ _ _
  | call name args => by
    refine Sparing.remember ?_
    split
    · exact sparing_fail _
    · split
      · exact sparing_fail _
      · exact (sparing_evalList s functions args).bind fun vs => sparing_apply _ _ _ _ _

theorem sparing_evalList (s : Surroundings) (functions : Registry α) :
    ∀ xs : List (Expr β), Sparing c (evalList s functions xs)
  | [] => sparing_pure _
  | x :: xs => (sparing_eval s functions x).bind fun _ =>
    (sparing_evalList s functions xs).bind fun _ => sparing_pure _

theorem sparing_evalSum (s : Surroundings) (functions : Registry α) (total : Value α) :
    ∀ xs : List (Expr β), Sparing c (evalSum s functions total xs)
  | [] => sparing_pure _
  | x :: xs => (sparing_eval s functions x).bind fun _ =>
    (sparing_apply _ _ _ _ _).bind fun total => sparing_evalSum s functions total xs

theorem sparing_evalProduct (s : Surroundings) (functions : Registry α) (total : Value α) :
    ∀ xs : List (Expr β), Sparing c (evalProduct s functions total xs)
  | [] => sparing_pure _
  | x :: xs => by
    refine (sparing_eval s functions x).bind fun v => ?_
    split
    · exact sparing_pure _
    · exact (sparing_apply _ _ _ _ _).bind fun total => sparing_evalProduct s functions total xs

end

/-- An evaluation from an empty memory, the session at its end included. -/
theorem answer_evaluate {e : Expr β} (expected : Option Domain) {v : Value α} {s : Session α}
    (ran : c.answer ((eval c.surroundings functions e).run {}) = (v, s)) :
    c.answer (e.evaluate c.surroundings functions expected) =
      ⟨widenTo c.surroundings expected v, s.errors⟩ := by
  unfold evaluate
  rw [Context.answer_bind, ran]
  rfl

/-- Where subtrees of one key evaluate alike, remembering their values changes no value. Of the
faults it leaves out repetitions. -/
theorem evaluate_of_alike {e : Expr β} (alike : Alike c functions e.subtrees)
    (expected : Option Domain) :
    let found := c.answer (e.evaluate c.surroundings functions expected)
    let anew := e.evaluateAnew c functions expected
    found.value = anew.value ∧ found.errors.Sublist anew.errors ∧ anew.errors ⊆ found.errors := by
  have nothing : Faithful c functions e.subtrees {} := fun _ member => by cases member
  obtain ⟨s, ran, -, recorded, added, errors, sublist⟩ :=
    follows_eval alike e (fun _ member => member) {} nothing
  have kept : s.errors = added := errors.trans (List.nil_append _)
  dsimp only
  rw [answer_evaluate expected ran]
  exact ⟨rfl, kept ▸ sublist, recorded⟩

/-- A model with finite values is asked for at most once. -/
theorem count_asked_le_one (functions : Registry α) (e : Expr β) (expected : Option Domain) {name : String}
    (settles : Settles c name) :
    (c.trace (e.evaluate c.surroundings functions expected)).2.count name ≤ 1 := by
  have once := sparing_eval c.surroundings functions e {} name settles
  have atMost := held_le_one (c.trace ((eval c.surroundings functions e).run {})).1.2 name
  unfold evaluate
  rw [Context.trace_bind, Context.trace_pure, List.append_nil]
  exact Nat.le_trans (Nat.le_of_add_right_le once) atMost

theorem DistinctKeys.alike {e : Expr β} (distinct : e.DistinctKeys) (c : Context β α)
    (functions : Registry α) :
    Alike c functions e.subtrees := fun x inX y inY same => by
  rw [distinct x inX y inY same]

/-- An evaluation of a tree without memory gives the same value, and the same faults, of which the
memory keeps the first of each. A model with finite values is asked for at most once. -/
theorem evaluate_eq_anew (c : Context β α) (functions : Registry α) (e : Expr β)
    (expected : Option Domain) (distinct : e.DistinctKeys) :
    let found := c.answer (e.evaluate c.surroundings functions expected)
    let anew := e.evaluateAnew c functions expected
    found.value = anew.value ∧ found.errors.Sublist anew.errors ∧
      (∀ error, error ∈ found.errors ↔ error ∈ anew.errors) ∧
      ∀ name data, c.lookup name = .ok (some data) → data.data.isFinite = true →
        (c.trace (e.evaluate c.surroundings functions expected)).2.count name ≤ 1 := by
  obtain ⟨value, kept, recorded⟩ := evaluate_of_alike (distinct.alike c functions) expected
  exact ⟨value, kept, fun error => ⟨fun member => kept.subset member, fun member => recorded member⟩,
    fun name data answered finite => count_asked_le_one functions e expected ⟨data, answered, finite⟩⟩

/-- A product that is zero although one of its factors is missing. -/
def vanishing : Expr ℚ := product [model "y", parameter "none"]

def repeated : Expr ℚ := sum [model "x", vanishing, model "x", vanishing]

def tabled : Context ℚ ℚ where
  lookup name := .ok (if name = "x" then some ⟨.node, .vector #[1, 2]⟩ else none)
  parameter name := if name = "none" then some 0 else none
  surroundings := { edgeMap := fun _ => #[], chunking := .serial }

/-- The model and the product are evaluated once, so that the missing factor is one fault. -/
theorem evaluate_eq_anew_of_repeated :
    let found := tabled.answer (repeated.evaluate tabled.surroundings .builtin none)
    let anew := repeated.evaluateAnew tabled .builtin none
    (found.value = anew.value ∧ ∀ error, error ∈ found.errors ↔ error ∈ anew.errors) ∧
      found.errors = [.missingModel "y"] ∧
      anew.errors = [.missingModel "y", .missingModel "y"] ∧
      (tabled.trace (repeated.evaluate tabled.surroundings .builtin none)).2 = ["x", "y"] := by
  have distinct : repeated.DistinctKeys := by
    refine distinctKeys_of_nodup [repeated, model "x", vanishing, model "y", parameter "none"]
      (fun x member => ?_) (by decide +kernel)
    simp only [repeated, vanishing, subtrees, subtreesOfList, List.cons_append, List.nil_append,
      List.mem_cons, List.not_mem_nil, or_false] at member ⊢
    grind
  obtain ⟨value, -, errors, -⟩ := evaluate_eq_anew tabled .builtin repeated none distinct
  exact ⟨⟨value, errors⟩, by decide +kernel, by decide +kernel, by decide +kernel⟩

end Expr

end FiniteVolume
