import FiniteVolume.Proofs.Expression.Selection

/-!
Steps of an evaluation from different sessions.

An owner with a state may answer a question differently each time, so that it matters what is asked
again. A step keeps a relation between sessions if from related sessions it asks the same questions and
ends with the same result (`Eval.Keeps`). For one, memory and faults only grow (`Eval.Grows`). For
another, a session may be ahead of another one by remembered values (`Session.Ahead`). What a step needs
to give its result again may have been remembered (`Eval.Recallable`). A value that can be recalled may
be remembered or not, without a difference for what follows (`Eval.effect_remember_bind`).
-/
namespace FiniteVolume

variable {β α ρ σ τ : Type}

/-! ## Queries that ask alike -/

/-- Queries that ask the same questions, and whose results are related whatever is answered. -/
inductive Query.Parallel (related : ρ → ρ → Prop) : Query β α ρ → Query β α ρ → Prop
  | done {r r' : ρ} (holds : related r r') : Parallel related (.done r) (.done r')
  | lookup (name : String) {next next' : LookupResult α → Query β α ρ}
    (each : ∀ a, Parallel related (next a) (next' a)) :
    Parallel related (.lookup name next) (.lookup name next')
  | parameter (name : String) {next next' : Option β → Query β α ρ}
    (each : ∀ v, Parallel related (next v) (next' v)) :
    Parallel related (.parameter name next) (.parameter name next')

namespace Query

variable {related : ρ → ρ → Prop} {related' : τ → τ → Prop} {q q' : Query β α ρ}

theorem Parallel.bind {f f' : ρ → Query β α τ} (first : Parallel related q q')
    (next : ∀ r r', related r r' → Parallel related' (f r) (f' r')) :
    Parallel related' (q >>= f) (q' >>= f') := by
  induction first with
  | done holds => exact next _ _ holds
  | lookup name _ ih => exact .lookup name ih
  | parameter name _ ih => exact .parameter name ih

theorem Parallel.runState (parallel : Parallel related q q')
    (onLookup : String → StateM σ (LookupResult α)) (parameterOf : σ → String → Option β) (s : σ) :
    related (q.runState onLookup parameterOf s).1 (q'.runState onLookup parameterOf s).1 ∧
      (q'.runState onLookup parameterOf s).2 = (q.runState onLookup parameterOf s).2 := by
  induction parallel generalizing s with
  | done holds => exact ⟨holds, rfl⟩
  | lookup name _ ih => exact ih _ _
  | parameter name _ ih => exact ih _ _

end Query

instance : LawfulMonad (Query β α) := by
  refine LawfulMonad.mk' _ (fun q => ?_) (fun _ _ => rfl) (fun q f g => ?_)
  all_goals
    induction q with
    | done r => rfl
    | lookup name next ih => exact congrArg (Query.lookup name) (funext ih)
    | parameter name next ih => exact congrArg (Query.parameter name) (funext ih)

/-! ## Sessions -/

namespace Session

/-- What is remembered in the first session is so in the second, which has all its faults. -/
structure Within (s t : Session α) : Prop where
  remembered : ∀ key v, s.remembered.lookup key = some v → t.remembered.lookup key = some v
  errors : s.errors ⊆ t.errors

theorem Within.refl (s : Session α) : s.Within s := ⟨fun _ _ hit => hit, fun _ found => found⟩

theorem Within.trans {s t u : Session α} (first : s.Within t) (second : t.Within u) : s.Within u :=
  ⟨fun key v hit => second.remembered key v (first.remembered key v hit),
    fun _ found => second.errors (first.errors found)⟩

theorem Within.fault {s t : Session α} (within : s.Within t) (e : EvalError) :
    s.Within { t with errors := t.errors ++ [e] } :=
  ⟨within.remembered, fun _ found => List.mem_append_left _ (within.errors found)⟩

theorem Within.insert {s t : Session α} (within : s.Within t) {key : String}
    (new : s.remembered.lookup key = none) (v : Value α) :
    s.Within { t with remembered := (key, v) :: t.remembered } := by
  refine ⟨fun known w hit => ?_, within.errors⟩
  have other : known ≠ key := by
    rintro rfl
    cases new.symm.trans hit
  rw [List.lookup_cons, beq_eq_false_iff_ne.mpr other]
  exact within.remembered known w hit

theorem Within.keep [BaseScalar β] [Scalar α] {s t : Session α} (within : s.Within t) {e : Expr β}
    (new : s.remembered.lookup e.key = none) (v : Value α) : s.Within (Eval.keep e v t).2 := by
  unfold Eval.keep
  split
  · exact within.fault _
  · dsimp only
    split
    · exact within
    · exact within.insert new v

/-- The second session has the faults of the first, and remembers what the first does and perhaps more:
values from `extra`. Both continue from `base`. -/
structure Ahead (base : Session α) (extra : String → Value α → Prop) (s s' : Session α) : Prop where
  base : base.Within s
  errors : s'.errors = s.errors
  remembered : ∀ key, s'.remembered.lookup key = s.remembered.lookup key ∨
    ∃ v, extra key v ∧ s.remembered.lookup key = none ∧ s'.remembered.lookup key = some v

variable {base s s' : Session α} {extra : String → Value α → Prop}

theorem Ahead.fault (ahead : Ahead base extra s s') (e : EvalError) :
    Ahead base extra { s with errors := s.errors ++ [e] } { s' with errors := s'.errors ++ [e] } :=
  ⟨ahead.base.fault e, congrArg (· ++ [e]) ahead.errors, ahead.remembered⟩

theorem Ahead.keep [BaseScalar β] [Scalar α] (ahead : Ahead base extra s s') {e : Expr β}
    (new : base.remembered.lookup e.key = none) (v : Value α) :
    Ahead base extra (Eval.keep e v s).2 (Eval.keep e v s').2 := by
  refine ⟨ahead.base.keep new v, ?_, fun key => ?_⟩
  -- Both sessions get the same fault, the same entry or neither, by the value alone.
  all_goals
    unfold Eval.keep
    cases v.isFinite <;> cases v.isInvalid <;>
      simp only [Bool.not_true, Bool.not_false, Bool.false_eq_true, if_true, if_false]
  any_goals exact ahead.remembered key
  any_goals exact ahead.errors
  any_goals exact congrArg (· ++ _) ahead.errors
  rw [List.lookup_cons, List.lookup_cons]
  cases key == e.key
  · exact ahead.remembered key
  · exact .inl rfl

theorem ahead_refl (s : Session α) : Ahead s extra s s := ⟨.refl s, rfl, fun _ => .inl rfl⟩

end Session

/-! ## Operations -/

namespace Value

variable [Scalar α] {s : Surroundings} {context : String} {f : Function α} {args : List (Value α)}

def Valid (v : Value α) : Prop := v.isInvalid = false

/-- Valid, and not the number zero. -/
def Regular (v : Value α) : Prop := v.Valid ∧ v ≠ .scalar 0

theorem valid_of_combine (valid : (combine s context f args).Valid) : ∀ v ∈ args, v.Valid := by
  unfold combine at valid
  split at valid
  · cases valid
  next none => simpa [Valid] using none

end Value

/-! ## Steps -/

namespace Eval

/-- From sessions that are related the step asks the same questions, and ends with one result in
sessions that are related again. -/
def Keeps (R : Session α → Session α → Prop) (m : Eval β α ρ) : Prop :=
  ∀ s s', R s s' → Query.Parallel (fun r r' => r'.1 = r.1 ∧ R r.2 r'.2) (m.run s) (m.run s')

variable {R : Session α → Session α → Prop}

theorem keeps_pure (r : ρ) : Keeps R (pure r : Eval β α ρ) := fun _ _ holds => .done ⟨rfl, holds⟩

theorem Keeps.bind {m : Eval β α ρ} {f : ρ → Eval β α τ} (first : Keeps R m)
    (next : ∀ r, Keeps R (f r)) : Keeps R (m >>= f) := by
  refine fun s s' holds => (first s s' holds).bind ?_
  rintro ⟨r, t⟩ ⟨_, t'⟩ ⟨rfl, after⟩
  exact next _ t t' after

def Recording (R : Session α → Session α → Prop) : Prop := ∀ s s' (e : EvalError), R s s' →
  R { s with errors := s.errors ++ [e] } { s' with errors := s'.errors ++ [e] }

theorem keeps_fail (recording : Recording R) (e : EvalError) :
    Keeps R (fail e : Eval β α (Value α)) := fun s s' holds => .done ⟨rfl, recording s s' e holds⟩

theorem keeps_ofExcept (recording : Recording R) (r : Except EvalError (Value α)) :
    Keeps R (ofExcept r : Eval β α (Value α)) := by
  cases r with
  | ok v => exact keeps_pure v
  | error e => exact keeps_fail recording e

theorem keeps_model (recording : Recording R) (name : String) :
    Keeps R (model name : Eval β α (Value α)) := by
  refine fun s s' holds => .lookup name fun a => ?_
  rcases a with cause | _ | found
  · exact keeps_fail recording _ s s' holds
  · exact keeps_fail recording _ s s' holds
  · exact .done ⟨rfl, holds⟩

theorem keeps_parameter [Precision β α] (recording : Recording R) (name : String) :
    Keeps R (parameter name : Eval β α (Value α)) := by
  refine fun s s' holds => .parameter name fun v => ?_
  cases v with
  | none => exact keeps_fail recording _ s s' holds
  | some v => exact .done ⟨rfl, holds⟩

/-- A step with which memory and faults only grow. -/
def Grows (m : Eval β α ρ) : Prop := ∀ base : Session α, Keeps (Session.Ahead base fun _ _ => False) m

/-- What is remembered under the key has the property. -/
def Holds (key : String) (P : Value α → Prop) (t t' : Session α) : Prop :=
  t' = t ∧ ∀ v, t.remembered.lookup key = some v → P v

section

variable (onLookup : String → StateM σ (LookupResult α)) (parameterOf : σ → String → Option β)

/-- The result of a step, the session after it and the state of the owner. -/
def runFrom (m : Eval β α ρ) (session : Session α) (start : σ) : (ρ × Session α) × σ :=
  (m.run session).runState onLookup parameterOf start

theorem runFrom_bind (m : Eval β α ρ) (f : ρ → Eval β α τ) (session : Session α) (start : σ) :
    runFrom onLookup parameterOf (m >>= f) session start =
      runFrom onLookup parameterOf (f (runFrom onLookup parameterOf m session start).1.1)
        (runFrom onLookup parameterOf m session start).1.2
        (runFrom onLookup parameterOf m session start).2 :=
  Query.runState_bind _ _ _

/-- If the step ends with a result of the kind, it gives the result again from what is then remembered,
without a question or a fault. -/
def Recallable (kind : ρ → Prop) (m : Eval β α ρ) : Prop := ∀ session start,
  kind (runFrom onLookup parameterOf m session start).1.1 →
    ∀ t, (runFrom onLookup parameterOf m session start).1.2.Within t →
      m.run t = .done ((runFrom onLookup parameterOf m session start).1.1, t)

/-- What is seen of a step from outside: its result, the faults and the state of the owner. -/
def effect (m : Eval β α ρ) (session : Session α) (start : σ) : (ρ × List EvalError) × σ :=
  let ran := runFrom onLookup parameterOf m session start
  ((ran.1.1, ran.1.2.errors), ran.2)

end

/-- No value was screened for being not finite. -/
def Unscreened (errors : List EvalError) : Prop := ∀ text, EvalError.nonFinite text ∉ errors

variable {onLookup : String → StateM σ (LookupResult α)} {parameterOf : σ → String → Option β}
  {session : Session α} {start : σ}

theorem Grows.within {m : Eval β α ρ} (grows : Grows m) (session : Session α) (start : σ) :
    session.Within (runFrom onLookup parameterOf m session start).1.2 :=
  ((grows session session session (Session.ahead_refl session)).runState _ _ start).1.2.base

/-- A key for which a step remembers nothing is new after it. -/
theorem fresh_of_keeps {key : String} {m : Eval β α (Value α)}
    (keeps : Keeps (Holds key fun _ => False) m) :
    (runFrom onLookup parameterOf m {} start).1.2.remembered.lookup key = none := by
  obtain ⟨⟨-, -, nothing⟩, -⟩ := (keeps {} {} ⟨rfl, nofun⟩).runState onLookup parameterOf start
  exact Option.eq_none_iff_forall_ne_some.mpr nothing

theorem recallable_pure {kind : ρ → Prop} (r : ρ) :
    Recallable onLookup parameterOf kind (pure r : Eval β α ρ) := fun _ _ _ _ _ => rfl

/-- Steps can be recalled one after the other, if the second has such a result only after a first of the
kind that can be recalled. -/
theorem Recallable.bind {kind : ρ → Prop} {kind' : τ → Prop} {m : Eval β α ρ} {f : ρ → Eval β α τ}
    (first : Recallable onLookup parameterOf kind m)
    (next : ∀ r, Recallable onLookup parameterOf kind' (f r)) (grows : ∀ r, Grows (f r))
    (strict : ∀ r session start,
      kind' (runFrom onLookup parameterOf (f r) session start).1.1 → kind r) :
    Recallable onLookup parameterOf kind' (m >>= f) := by
  intro session start ofKind t within
  rw [runFrom_bind] at ofKind within ⊢
  have again := first session start (strict _ _ _ ofKind) t (((grows _).within _ _).trans within)
  rw [StateT.run_bind, again]
  exact next _ _ _ ofKind t within

theorem effect_bind (m : Eval β α ρ) (next : ρ → Eval β α τ) (session : Session α) (start : σ) :
    effect onLookup parameterOf (m >>= next) session start =
      let ran := runFrom onLookup parameterOf m session start
      effect onLookup parameterOf (next ran.1.1) ran.1.2 ran.2 := by
  unfold effect
  rw [runFrom_bind]

/-! ## Operations as steps -/

section

variable [BaseScalar β] [Scalar α] [Precision β α] {s : Surroundings}

theorem keeps_apply (recording : Recording R) (s : Surroundings) (context : String) (f : Function α)
    (args : List (Value α)) (reporting : Bool) :
    Keeps R (apply s context f args reporting : Eval β α (Value α)) := by
  unfold apply
  split
  · exact keeps_ofExcept recording _
  · split
    · split
      · exact keeps_fail recording _
      · exact keeps_pure _
    · exact keeps_ofExcept recording _

theorem grows_apply_bind {context : String} {f : Function α} {args : List (Value α)}
    {reporting : Bool} {next : Value α → Eval β α ρ} (grows : ∀ v, Grows (next v)) :
    Grows (apply s context f args reporting >>= next) := fun base =>
  (keeps_apply (fun _ _ e ahead => ahead.fault e) s context f args reporting).bind fun v => grows v base

variable (onLookup parameterOf) in
theorem fst_runFrom_apply (s : Surroundings) (context : String) {f : Function α}
    (elementwise : ∀ r, f ≠ .reduction r) (args : List (Value α)) (session : Session α) (start : σ) :
    (runFrom onLookup parameterOf (apply s context f args false : Eval β α _) session start).1.1 =
      Value.combine s context f args := by
  obtain ⟨session', applied⟩ := run_apply (β := β) s context args elementwise session
  rw [runFrom, applied]
  rfl

theorem run_apply_of_valid (s : Surroundings) (context : String) {f : Function α}
    {args : List (Value α)} (elementwise : ∀ r, f ≠ .reduction r)
    (valid : (Value.combine s context f args).Valid) (session : Session α) :
    (apply s context f args false : Eval β α _).run session =
      .done (Value.combine s context f args, session) := by
  have operands := Bool.eq_false_iff.mpr fun invalid => by
    obtain ⟨v, member, isInvalid⟩ := List.any_eq_true.mp invalid
    cases isInvalid.symm.trans (Value.valid_of_combine valid v member)
  unfold apply
  unfold Value.combine at valid ⊢
  cases f with
  | reduction r => exact absurd rfl (elementwise r)
  | _ =>
    simp only [operands, Bool.false_eq_true, if_false] at valid ⊢
    cases combined : Value.operands s context args >>= Value.applyTo s.chunking context _ with
    | ok v => rfl
    | error e =>
      rw [combined] at valid
      cases valid

theorem recallable_apply (context : String) {f : Function α} (elementwise : ∀ r, f ≠ .reduction r)
    (args : List (Value α)) : Recallable onLookup parameterOf Value.Valid
      (apply s context f args false : Eval β α _) := by
  intro session start valid t _
  rw [fst_runFrom_apply _ _ _ _ elementwise] at valid ⊢
  exact run_apply_of_valid s context elementwise valid t

/-- An operation is followed by a result of the kind only if its operands are valid. -/
theorem valid_of_apply_bind {kind : ρ → Prop} {context : String} {f : Function α}
    (elementwise : ∀ r, f ≠ .reduction r) {args : List (Value α)} {next : Value α → Eval β α ρ}
    (strict : ∀ v session start, kind (runFrom onLookup parameterOf (next v) session start).1.1 →
      v.Valid)
    (ofKind : kind (runFrom onLookup parameterOf (apply s context f args false >>= next)
      session start).1.1) : ∀ v ∈ args, v.Valid := by
  rw [runFrom_bind] at ofKind
  have combined := strict _ _ _ ofKind
  rw [fst_runFrom_apply _ _ _ _ elementwise] at combined
  exact Value.valid_of_combine combined

end

/-! ## Remembering on the way -/

section

variable [BaseScalar β] [Scalar α]

theorem runFrom_remember {e : Expr β} {m : Eval β α (Value α)}
    (miss : session.remembered.lookup e.key = none) :
    runFrom onLookup parameterOf (Eval.remember e m) session start =
      (keep e (runFrom onLookup parameterOf m session start).1.1
        (runFrom onLookup parameterOf m session start).1.2,
        (runFrom onLookup parameterOf m session start).2) := by
  rw [runFrom, run_remember_of_miss e m miss, Query.runState_bind]
  rfl

theorem isFinite_of_keep {e : Expr β} {v : Value α}
    (unscreened : Unscreened (keep e v session).2.errors) : v.isFinite = true := by
  by_contra infinite
  rw [keep, if_pos (by simp [infinite])] at unscreened
  exact unscreened e.text (List.mem_append_right _ List.mem_cons_self)

theorem keep_of_isFinite (e : Expr β) {v : Value α} (finite : v.isFinite = true) (session : Session α) :
    keep e v session =
      (v, if v.isInvalid then session else
        { session with remembered := (e.key, v) :: session.remembered }) := by
  rw [keep, if_neg (by simp [finite])]

theorem isFinite_of_remember {e : Expr β} {m : Eval β α (Value α)}
    (miss : session.remembered.lookup e.key = none)
    (unscreened : Unscreened (effect onLookup parameterOf (Eval.remember e m) session start).1.2) :
    (effect onLookup parameterOf m session start).1.1.isFinite = true := by
  unfold effect at unscreened
  rw [runFrom_remember miss] at unscreened
  exact isFinite_of_keep unscreened

theorem effect_remember {e : Expr β} {m : Eval β α (Value α)}
    (miss : session.remembered.lookup e.key = none)
    (finite : (effect onLookup parameterOf m session start).1.1.isFinite = true) :
    effect onLookup parameterOf (Eval.remember e m) session start =
      effect onLookup parameterOf m session start := by
  unfold effect at finite ⊢
  rw [runFrom_remember miss, keep_of_isFinite e finite]
  dsimp only
  split <;> rfl

/-- Trees evaluate alike if their values are calculated alike, and that of the one is not screened. -/
theorem effect_remember_congr {e e' : Expr β} {m m' : Eval β α (Value α)}
    (same : Unscreened (effect onLookup parameterOf m {} start).1.2 →
      effect onLookup parameterOf m' {} start = effect onLookup parameterOf m {} start)
    (unscreened : Unscreened (effect onLookup parameterOf (Eval.remember e m) {} start).1.2) :
    effect onLookup parameterOf (Eval.remember e' m') {} start =
      effect onLookup parameterOf (Eval.remember e m) {} start := by
  have finite := isFinite_of_remember rfl unscreened
  rw [effect_remember rfl finite] at unscreened ⊢
  rw [effect_remember rfl (by rwa [same unscreened]), same unscreened]

/-- A value that may be recalled may as well be remembered on the way. -/
theorem effect_remember_bind {e : Expr β} {m : Eval β α (Value α)} {next : Value α → Eval β α ρ}
    (miss : session.remembered.lookup e.key = none) (grows : ∀ v, Grows (next v))
    (fresh : (runFrom onLookup parameterOf m session start).1.2.remembered.lookup e.key = none)
    (recalled : let ran := runFrom onLookup parameterOf m session start
      ran.1.1.isFinite = true → ran.1.1.Valid →
        Keeps (Session.Ahead ran.1.2 fun key v => key = e.key ∧ v = ran.1.1) (next ran.1.1))
    (unscreened : Unscreened
      (effect onLookup parameterOf (Eval.remember e m >>= next) session start).1.2) :
    effect onLookup parameterOf (Eval.remember e m >>= next) session start =
      effect onLookup parameterOf (m >>= next) session start := by
  unfold effect at unscreened ⊢
  rw [runFrom_bind, runFrom_remember miss] at unscreened ⊢
  rw [runFrom_bind]
  rcases ran : runFrom onLookup parameterOf m session start with ⟨⟨v, after⟩, state⟩
  rw [ran] at unscreened fresh
  simp only [ran] at recalled
  have finite : v.isFinite = true := isFinite_of_keep fun text found =>
    unscreened text (((grows _).within _ _).errors found)
  rw [keep_of_isFinite e finite]
  cases invalid : v.isInvalid with
  | true => rfl
  | false =>
    -- From here the session that remembers the value is ahead by it.
    have ahead : Session.Ahead after (fun key w => key = e.key ∧ w = v) after
        { after with remembered := (e.key, v) :: after.remembered } := by
      refine ⟨.refl _, rfl, fun key => ?_⟩
      rw [List.lookup_cons]
      cases same : key == e.key with
      | true => exact .inr ⟨v, ⟨beq_iff_eq.mp same, rfl⟩, beq_iff_eq.mp same ▸ fresh, rfl⟩
      | false => exact .inl rfl
    obtain ⟨⟨value, sessions⟩, owner⟩ :=
      (recalled finite invalid after _ ahead).runState onLookup parameterOf state
    exact Prod.ext (Prod.ext value sessions.errors) owner

theorem effect_remember_bind_of_hit {e : Expr β} {m : Eval β α (Value α)}
    {next : Value α → Eval β α ρ} {v : Value α} (hit : session.remembered.lookup e.key = some v) :
    effect onLookup parameterOf (Eval.remember e m >>= next) session start =
      effect onLookup parameterOf (next v) session start := by
  rw [effect_bind, runFrom, run_remember_of_hit e m hit]
  rfl

theorem lookup_keep {e : Expr β} {v w : Value α} {key : String}
    (hit : (keep e v session).2.remembered.lookup key = some w) :
    key = e.key ∧ w = v ∨ session.remembered.lookup key = some w := by
  unfold keep at hit
  split at hit
  · exact .inr hit
  · dsimp only at hit
    split at hit
    · exact .inr hit
    · rw [List.lookup_cons] at hit
      cases same : key == e.key with
      | true =>
        rw [same] at hit
        exact .inl ⟨beq_iff_eq.mp same, (Option.some.inj hit).symm⟩
      | false =>
        rw [same] at hit
        exact .inr hit

end

end Eval

end FiniteVolume
