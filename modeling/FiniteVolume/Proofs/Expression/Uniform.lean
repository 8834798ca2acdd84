import FiniteVolume.Proofs.Expression.Locality
import FiniteVolume.Proofs.Expression.Sizes
import FiniteVolume.Proofs.Field.Uniform

/-!
Evaluations do not see how fields are stored.

Evaluations of one expression whose answers have the same elements go the same way: they ask the same
questions, remember values with the same elements and find the same faults (`Expr.twin_eval`). That
takes answers with elements, since a shared value of no element may still be infinite, and positions
of edges that exist.
-/
namespace FiniteVolume

variable {β α γ ε ρ σ τ υ : Type}

/-! ## Results that correspond -/

/-- Results that are related, or the same failure. -/
inductive Results (related : ρ → σ → Prop) : Except ε ρ → Except ε σ → Prop
  | ok {r : ρ} {s : σ} (holds : related r s) : Results related (.ok r) (.ok s)
  | error (e : ε) : Results related (.error e) (.error e)

theorem Results.bind {related : ρ → σ → Prop} {related' : τ → υ → Prop} {r : Except ε ρ}
    {s : Except ε σ} {f : ρ → Except ε τ} {g : σ → Except ε υ} (first : Results related r s)
    (next : ∀ x y, related x y → Results related' (f x) (g y)) :
    Results related' (r >>= f) (s >>= g) := by
  cases first with
  | ok holds => exact next _ _ holds
  | error e => exact .error e

theorem Results.mapM {related : ρ → σ → Prop} {f : γ → Except ε ρ} {g : τ → Except ε σ}
    {xs : List γ} {ys : List τ}
    (each : List.Forall₂ (fun x y => Results related (f x) (g y)) xs ys) :
    Results (List.Forall₂ related) (xs.mapM f) (ys.mapM g) := by
  induction each with
  | nil => exact .ok .nil
  | cons head _ ih =>
    rw [List.mapM_cons, List.mapM_cons]
    exact head.bind fun _ _ here => ih.bind fun _ _ below => .ok (.cons here below)

/-! ## Values that correspond -/

/-- How many elements fields may have on each domain: some, and with them all those that are read
through the edges of a domain. -/
structure Extents (s : Surroundings) (extents : Domain → Nat → Prop) : Prop where
  populated : ∀ d n, extents d n → 0 < n
  edges : ∀ d m, extents d m → d.isElementEdge = true → ∀ n, extents .edge n →
    ∀ j ∈ s.edgeMap d, j < n

variable {extents : Domain → Nat → Prop}

namespace Value

/-- The value with its elements stored one by one. -/
def expand : Value α → Value α
  | field d data => field d data.expand
  | v => v

/-- Values of one kind with the same elements, as many as there may be. -/
inductive Twin (extents : Domain → Nat → Prop) : Value α → Value α → Prop
  | scalar (x : α) : Twin extents (.scalar x) (.scalar x)
  | field {d : Domain} {x x' : Field α} (sized : extents d x.size) (same : x'.expand = x.expand) :
    Twin extents (.field d x) (.field d x')
  | invalid : Twin extents .invalid .invalid

variable {s : Surroundings} {context : String} {v v' : Value α} {args args' : List (Value α)}

theorem Twin.domain? (twin : Twin extents v v') : v'.domain? = v.domain? := by
  cases twin <;> rfl

theorem Twin.isInvalid (twin : Twin extents v v') : v'.isInvalid = v.isInvalid := by
  cases twin <;> rfl

theorem any_isInvalid (twins : List.Forall₂ (Twin extents) args args') :
    args'.any (·.isInvalid) = args.any (·.isInvalid) := by
  induction twins with
  | nil => rfl
  | cons head _ ih => rw [List.any_cons, List.any_cons, head.isInvalid, ih]

theorem map_domain? (twins : List.Forall₂ (Twin extents) args args') :
    args'.map Value.domain? = args.map Value.domain? := by
  induction twins with
  | nil => rfl
  | cons head _ ih => rw [List.map_cons, List.map_cons, head.domain?, ih]

theorem filterMap_eq (twins : List.Forall₂ (Twin extents) args args') {f : Value α → Option γ}
    (alike : ∀ {v v'}, Twin extents v v' → f v' = f v) : args'.filterMap f = args.filterMap f := by
  induction twins with
  | nil => rfl
  | cons head _ ih => rw [List.filterMap_cons, List.filterMap_cons, alike head, ih]

theorem commonSize_cons_field (d d' : Domain) (edgeMap : Array Nat) (x : Field α) :
    commonSize d edgeMap (field d' x :: args) =
      if d' = d then x.size else commonSize d edgeMap args := by
  unfold commonSize
  rw [List.findSome?_cons]
  by_cases here : d' = d <;> simp [here]

theorem commonSize_cons_of_none {d : Domain} {edgeMap : Array Nat} (none : v.domain? = none) :
    commonSize d edgeMap (v :: args) = commonSize d edgeMap args := by
  cases v with
  | field d' x => cases none
  | _ => rfl

theorem commonSize_eq (d : Domain) (edgeMap : Array Nat)
    (twins : List.Forall₂ (Twin extents) args args') :
    commonSize d edgeMap args' = commonSize d edgeMap args := by
  induction twins with
  | nil => rfl
  | cons head _ ih =>
    cases head with
    | field sized same =>
      rw [commonSize_cons_field, commonSize_cons_field, ih, Field.size_eq_of_expand same]
    | _ => rw [commonSize_cons_of_none rfl, commonSize_cons_of_none rfl, ih]

theorem extents_commonSize {d : Domain} (edgeMap : Array Nat)
    (twins : List.Forall₂ (Twin extents) args args') (reached : some d ∈ args.map Value.domain?) :
    extents d (commonSize d edgeMap args) := by
  induction twins with
  | nil => cases reached
  | cons head _ ih =>
    rw [List.map_cons, List.mem_cons] at reached
    cases head with
    | field sized same =>
      rw [commonSize_cons_field]
      split
      next here => exact here ▸ sized
      next apart => exact ih (reached.resolve_left fun same => apart (Option.some.inj same).symm)
    | _ =>
      rw [commonSize_cons_of_none rfl]
      exact ih (reached.resolve_left nofun)

variable [Scalar α]

theorem Twin.isScalarZero (twin : Twin extents v v') : v'.isScalarZero = v.isScalarZero := by
  cases twin <;> rfl

theorem Twin.isFinite (sound : Extents s extents) (twin : Twin extents v v') :
    v'.isFinite = v.isFinite := by
  cases twin with
  | field sized same =>
    have populated := sound.populated _ _ sized
    rw [isFinite, isFinite, Field.isFinite_eq_all populated,
      Field.isFinite_eq_all (Field.size_eq_of_expand same ▸ populated), Field.expand_eq_iff.mp same]
  | _ => rfl

/-! ## Functions of values that correspond -/

/-- Operands with the same elements, as many as there may be on their domain. -/
inductive Operands.Twin (extents : Domain → Nat → Prop) : Operands α → Operands α → Prop
  | scalars {xs xs' : List α} (same : xs' = xs) : Twin extents (.scalars xs) (.scalars xs')
  | fields {d : Domain} {n : Nat} {xs xs' : List (Field α)} (reached : extents d n)
    (same : List.Forall₂ (fun x x' => x.size = n ∧ x'.expand = x.expand) xs xs') :
    Twin extents (.fields d xs) (.fields d xs')

theorem operand_twin (sound : Extents s extents) {d : Domain} {n : Nat} (reached : extents d n)
    (twin : Twin extents v v') : Results (fun x x' => x.size = n ∧ x'.expand = x.expand)
      (operand s context d n v) (operand s context d n v') := by
  have checked : ∀ {x x' : Field α}, x'.expand = x.expand →
      Results (fun x x' => x.size = n ∧ x'.expand = x.expand)
        (if x.size ≠ n then .error (.lengthMismatch context n x.size) else .ok x)
        (if x'.size ≠ n then .error (.lengthMismatch context n x'.size) else .ok x' :
          Except EvalError (Field α)) := by
    intro x x' same
    rw [Field.size_eq_of_expand same]
    split
    · exact .error _
    next fits => exact .ok ⟨Decidable.not_not.mp fits, same⟩
  unfold operand
  cases twin with
  | scalar x => exact checked rfl
  | invalid => exact .error _
  | field sized same =>
    rename_i source x x'
    by_cases here : source = d
    · simp only [lift?, if_pos here]
      exact checked same
    · by_cases through : source = .edge ∧ d.isElementEdge = true
      · simp only [lift?, if_neg here, if_pos through]
        obtain ⟨rfl, widens⟩ := through
        have inside := sound.edges d n reached widens _ sized
        refine checked (Field.expand_eq_iff.mpr ?_)
        rw [Field.toArray_gather _ x inside,
          Field.toArray_gather _ x' (Field.size_eq_of_expand same ▸ inside),
          Field.expand_eq_iff.mp same]
      · simp only [lift?, if_neg here, if_neg through]
        exact .error _

theorem operands_twin (sound : Extents s extents) (twins : List.Forall₂ (Twin extents) args args') :
    Results (Operands.Twin extents) (operands s context args) (operands s context args') := by
  have folded : ∀ args : List (Value α),
      args.foldlM (fun d arg => commonDomain context d arg.domain?) none =
        (args.map Value.domain?).foldlM (commonDomain context) none := fun _ => by
    rw [List.foldlM_map]
  unfold operands
  rw [folded, folded, map_domain? twins]
  cases joined : (args.map Value.domain?).foldlM (commonDomain context) none with
  | error e => exact .error e
  | ok joint =>
    cases joint with
    | none => exact .ok (.scalars (filterMap_eq twins fun twin => by cases twin <;> rfl))
    | some d =>
      have reached : some d ∈ args.map Value.domain? := by
        simpa using ((foldlM_eq_some_iff none).mp joined).1
      have extent := extents_commonSize (if d.isElementEdge then s.edgeMap d else #[]) twins reached
      refine (Results.mapM ?_).bind fun xs xs' same => .ok (.fields extent same)
      rw [commonSize_eq d _ twins]
      exact twins.imp fun _ _ twin => operand_twin sound extent twin

section

variable {c : Chunking} {x x' y y' z z' : Field α} {d : Domain} {n : Nat}

omit [Scalar α] in
theorem map_twin (f : α → α) (reached : extents d n) (size : x.size = n)
    (same : x'.expand = x.expand) :
    Twin extents (field d (x.map c f)) (field d (x'.map c f)) := by
  refine .field (by rwa [Field.size_map, size]) (Field.expand_eq_iff.mpr ?_)
  rw [Field.toArray_map, Field.toArray_map, Field.expand_eq_iff.mp same]

omit [Scalar α] in
theorem zipWith_twin {f : α → α → α} (reached : extents d n) (size : x.size = n)
    (sameX : x'.expand = x.expand) (sameY : y'.expand = y.expand) (zipped : x.zipWith c f y = .ok z)
    (zipped' : x'.zipWith c f y' = .ok z') : Twin extents (field d z) (field d z') := by
  refine .field (by rwa [(Field.size_zipWith zipped).1, size]) (Field.expand_eq_iff.mpr ?_)
  rw [Field.toArray_of_zipWith zipped, Field.toArray_of_zipWith zipped',
    Field.expand_eq_iff.mp sameX, Field.expand_eq_iff.mp sameY]

theorem zipWith3_twin (f : α → α → α → α) (reached : extents d n) (sizeX : x.size = n)
    (sizeY : y.size = n) (sizeZ : z.size = n) (sameX : x'.expand = x.expand)
    (sameY : y'.expand = y.expand) (sameZ : z'.expand = z.expand) :
    Twin extents (field d (zipWith3 c f x y z)) (field d (zipWith3 c f x' y' z')) := by
  have xy := sizeX.trans sizeY.symm
  have xz := sizeX.trans sizeZ.symm
  refine .field (by rwa [size_zipWith3 c f xy xz, sizeX]) (Field.expand_eq_iff.mpr ?_)
  rw [toArray_zipWith3 c f xy xz, toArray_zipWith3 c f
      ((Field.size_eq_of_expand sameX).trans (xy.trans (Field.size_eq_of_expand sameY).symm))
      ((Field.size_eq_of_expand sameX).trans (xz.trans (Field.size_eq_of_expand sameZ).symm)),
    Field.expand_eq_iff.mp sameX, Field.expand_eq_iff.mp sameY, Field.expand_eq_iff.mp sameZ]

end

/-- Functions combine elements, and say the same about operands that do not fit. -/
theorem applyTo_twin (c : Chunking) (f : Function α) {xs xs' : Operands α}
    (twin : Operands.Twin extents xs xs') :
    Results (Twin extents) (applyTo c context f xs) (applyTo c context f xs') := by
  cases twin with
  | scalars same =>
    subst same
    cases applied : applyTo c context f (.scalars _) with
    | error e => exact .error e
    | ok v =>
      obtain ⟨x, -, rfl⟩ := applyTo_scalars applied
      exact .ok (.scalar x)
  | fields reached same =>
    rcases same with _ | ⟨⟨sizeX, sameX⟩, _ | ⟨⟨sizeY, sameY⟩, _ | ⟨⟨sizeZ, sameZ⟩, _ | ⟨_, _⟩⟩⟩⟩
    · cases f <;> exact .error _
    · cases f with
      | unary f => exact .ok (map_twin f reached sizeX sameX)
      | _ => exact .error _
    · cases f with
      | binary f =>
        have fits := sizeX.trans sizeY.symm
        have fits' := (Field.size_eq_of_expand sameX).trans
          (fits.trans (Field.size_eq_of_expand sameY).symm)
        obtain ⟨z, zipped⟩ := Field.zipWith_of_size_eq c f fits
        obtain ⟨z', zipped'⟩ := Field.zipWith_of_size_eq c f fits'
        simp only [applyTo, zipped, zipped']
        exact .ok (zipWith_twin reached sizeX sameX sameY zipped zipped')
      | _ => exact .error _
    · cases f with
      | ternary f => exact .ok (zipWith3_twin f reached sizeX sizeY sizeZ sameX sameY sameZ)
      | _ => exact .error _
    · cases f <;> exact .error _

end Value

/-! ## Queries that correspond -/

/-- The same failure, no model, or fields on one domain with the same elements. -/
inductive LookupResult.Twin (extents : Domain → Nat → Prop) :
    LookupResult α → LookupResult α → Prop
  | error (e : ModelError) : Twin extents (.error e) (.error e)
  | unknown : Twin extents (.ok none) (.ok none)
  | found {d : Domain} {x x' : Field α} (sized : extents d x.size) (same : x'.expand = x.expand) :
    Twin extents (.ok (some ⟨d, x⟩)) (.ok (some ⟨d, x'⟩))

/-- Queries that ask the same questions as long as the answers correspond, and whose results are then
related. -/
inductive Query.Twin (extents : Domain → Nat → Prop) (related : ρ → σ → Prop) :
    Query β α ρ → Query β α σ → Prop
  | done {r : ρ} {r' : σ} (holds : related r r') : Twin extents related (.done r) (.done r')
  | lookup (name : String) {next : LookupResult α → Query β α ρ}
    {next' : LookupResult α → Query β α σ}
    (each : ∀ a a', LookupResult.Twin extents a a' → Twin extents related (next a) (next' a')) :
    Twin extents related (.lookup name next) (.lookup name next')
  | parameter (name : String) {next : Option β → Query β α ρ} {next' : Option β → Query β α σ}
    (each : ∀ v, Twin extents related (next v) (next' v)) :
    Twin extents related (.parameter name next) (.parameter name next')

theorem Query.Twin.bind {related : ρ → σ → Prop} {related' : τ → υ → Prop} {q : Query β α ρ}
    {q' : Query β α σ} {f : ρ → Query β α τ} {f' : σ → Query β α υ}
    (first : Query.Twin extents related q q')
    (next : ∀ r r', related r r' → Query.Twin extents related' (f r) (f' r')) :
    Query.Twin extents related' (q >>= f) (q' >>= f') := by
  induction first with
  | done holds => exact next _ _ holds
  | lookup name _ ih => exact .lookup name ih
  | parameter name _ ih => exact .parameter name ih

/-- What is remembered corresponds, and the faults are the same. -/
structure Session.Twin (extents : Domain → Nat → Prop) (s s' : Session α) : Prop where
  remembered : List.Forall₂ (fun entry entry' => entry'.1 = entry.1 ∧
    Value.Twin extents entry.2 entry'.2) s.remembered s'.remembered
  errors : s'.errors = s.errors

theorem Session.Twin.lookup {s s' : Session α} (twin : Session.Twin extents s s') (key : String) :
    (s.remembered.lookup key = none ∧ s'.remembered.lookup key = none) ∨
      ∃ v v', s.remembered.lookup key = some v ∧ s'.remembered.lookup key = some v' ∧
        Value.Twin extents v v' := by
  have entries := twin.remembered
  revert entries
  generalize s.remembered = xs, s'.remembered = xs'
  intro entries
  induction entries with
  | nil => exact .inl ⟨rfl, rfl⟩
  | cons head _ ih =>
    rename_i entry entry' _ _ _
    obtain ⟨k, v⟩ := entry
    obtain ⟨k', v'⟩ := entry'
    obtain ⟨rfl, values⟩ := head
    rw [List.lookup_cons, List.lookup_cons]
    by_cases here : key = k'
    · simp only [here, beq_self_eq_true]
      exact .inr ⟨v, v', rfl, rfl, values⟩
    · simpa only [beq_eq_false_iff_ne.mpr here] using ih

namespace Eval

/-- Steps that correspond as queries, from what is remembered to what is remembered. -/
def Twin (extents : Domain → Nat → Prop) (related : ρ → σ → Prop) (a : Eval β α ρ)
    (a' : Eval β α σ) : Prop :=
  ∀ s s' : Session α, Session.Twin extents s s' →
    Query.Twin extents (fun r r' => related r.1 r'.1 ∧ Session.Twin extents r.2 r'.2)
      (a.run s) (a'.run s')

section

variable {related : ρ → σ → Prop} {related' : τ → υ → Prop}

theorem twin_pure {r : ρ} {r' : σ} (holds : related r r') :
    Twin extents related (pure r : Eval β α ρ) (pure r') :=
  fun _ _ remembered => .done ⟨holds, remembered⟩

theorem Twin.bind {a : Eval β α ρ} {a' : Eval β α σ} {f : ρ → Eval β α τ} {f' : σ → Eval β α υ}
    (first : Twin extents related a a')
    (next : ∀ r r', related r r' → Twin extents related' (f r) (f' r')) :
    Twin extents related' (a >>= f) (a' >>= f') :=
  fun s s' remembered => (first s s' remembered).bind fun r r' holds =>
    next r.1 r'.1 holds.1 r.2 r'.2 holds.2

end

theorem twin_fail (e : EvalError) :
    Twin extents (Value.Twin extents) (fail e : Eval β α (Value α)) (fail e) :=
  fun _ _ twin => .done ⟨.invalid, twin.remembered, congrArg (· ++ [e]) twin.errors⟩

theorem twin_ofExcept {r r' : Except EvalError (Value α)}
    (results : Results (Value.Twin extents) r r') :
    Twin extents (Value.Twin extents) (ofExcept r : Eval β α (Value α)) (ofExcept r') := by
  cases results with
  | ok holds => exact twin_pure holds
  | error e => exact twin_fail e

theorem twin_model (name : String) :
    Twin extents (Value.Twin extents) (model name : Eval β α (Value α)) (model name) := by
  refine fun s s' twin => .lookup name fun a a' answers => ?_
  cases answers with
  | error e => exact twin_fail _ s s' twin
  | unknown => exact twin_fail _ s s' twin
  | found sized same => exact .done ⟨.field sized same, twin⟩

theorem twin_parameter [Precision β α] (name : String) :
    Twin extents (Value.Twin extents) (parameter name : Eval β α (Value α)) (parameter name) := by
  refine fun s s' twin => .parameter name fun v => ?_
  cases v with
  | none => exact twin_fail _ s s' twin
  | some v => exact .done ⟨.scalar _, twin⟩

variable [BaseScalar β] [Scalar α] {s : Surroundings}

theorem Twin.remember (sound : Extents s extents) (e : Expr β) {body body' : Eval β α (Value α)}
    (twin : Twin extents (Value.Twin extents) body body') :
    Twin extents (Value.Twin extents) (Eval.remember e body) (Eval.remember e body') := by
  intro t t' remembered
  rcases remembered.lookup e.key with ⟨miss, miss'⟩ | ⟨v, v', hit, hit', values⟩
  · rw [run_remember_of_miss e body miss, run_remember_of_miss e body' miss']
    refine (twin t t' remembered).bind fun r r' ⟨values, remembered'⟩ => .done ?_
    unfold keep
    rw [values.isFinite sound, values.isInvalid]
    cases r.1.isFinite with
    | false => exact ⟨.invalid, remembered'.remembered, congrArg (· ++ [_]) remembered'.errors⟩
    | true =>
      cases r.1.isInvalid with
      | true => exact ⟨values, remembered'⟩
      | false => exact ⟨values, .cons ⟨rfl, values⟩ remembered'.remembered, remembered'.errors⟩
  · rw [run_remember_of_hit e body hit, run_remember_of_hit e body' hit']
    exact .done ⟨values, remembered⟩

theorem twin_apply [Precision β α] (sound : Extents s extents) (context : String) {f : Function α}
    (elementwise : ∀ r, f ≠ .reduction r) {args args' : List (Value α)}
    (twins : List.Forall₂ (Value.Twin extents) args args') (reporting : Bool) :
    Twin extents (Value.Twin extents) (apply s context f args reporting : Eval β α (Value α))
      (apply s context f args' reporting) := by
  have applied : ∀ args : List (Value α),
      (apply s context f args reporting : Eval β α (Value α)) =
        if args.any (·.isInvalid) then
          if reporting then fail (.invalidArgument context) else return .invalid
        else ofExcept (do Value.applyTo s.chunking context f (← Value.operands s context args)) := by
    intro args
    cases f with
    | reduction r => exact absurd rfl (elementwise r)
    | _ => rfl
  rw [applied, applied, Value.any_isInvalid twins]
  split
  · split
    · exact twin_fail _
    · exact twin_pure .invalid
  · exact twin_ofExcept ((Value.operands_twin sound twins).bind fun _ _ operands =>
      Value.applyTo_twin s.chunking f operands)

end Eval

namespace Expr

open Eval

variable [BaseScalar β] [Scalar α] [Precision β α] {s : Surroundings} {functions : Registry α}

mutual

/-- An expression has values that correspond if the answers to its questions do. -/
theorem twin_eval (sound : Extents s extents) : ∀ e : Expr β,
    (∀ x ∈ e.subtrees, Elementwise functions x) →
      Twin extents (Value.Twin extents) (eval s functions e : Eval β α (Value α)) (eval s functions e)
  | constant _, _ => twin_pure (.scalar _)
  | invalid _, _ => twin_fail _
  | parameter name, _ => (twin_parameter name).remember sound _
  | model name, _ => (twin_model name).remember sound _
  | sum [], _ => (twin_pure (.scalar _)).remember sound _
  | sum (x :: xs), plain => by
    obtain ⟨first, later⟩ := List.forall_mem_append.mp (List.forall_mem_cons.mp plain).2
    exact ((twin_eval sound x first).bind fun _ _ total =>
      twin_evalSum sound total xs later).remember sound _
  | product xs, plain =>
    (twin_evalProduct sound (.scalar 1) xs (List.forall_mem_cons.mp plain).2).remember sound _
  | ifThen c t, plain => by
    obtain ⟨ofC, ofT⟩ := List.forall_mem_append.mp (List.forall_mem_cons.mp plain).2
    refine ((twin_eval sound c ofC).bind fun v v' condition => ?_).remember sound _
    -- Conditions that correspond choose the same way: numbers are equal, fields stay fields.
    cases condition with
    | invalid => exact twin_pure .invalid
    | scalar x =>
      dsimp only
      split
      · exact twin_pure (.scalar 0)
      · exact twin_eval sound t ofT
    | field sized same =>
      exact (twin_eval sound t ofT).bind fun w w' selected => twin_apply sound _
        (Function.binary_ne _) (.cons (.field sized same) (.cons selected .nil)) _
  | ifElse c t e, plain => by
    obtain ⟨ofBoth, ofE⟩ := List.forall_mem_append.mp (List.forall_mem_cons.mp plain).2
    obtain ⟨ofC, ofT⟩ := List.forall_mem_append.mp ofBoth
    refine ((twin_eval sound c ofC).bind fun v v' condition => ?_).remember sound _
    cases condition with
    | invalid => exact twin_pure .invalid
    | scalar x =>
      dsimp only
      split
      · exact twin_eval sound e ofE
      · exact twin_eval sound t ofT
    | field sized same =>
      exact (twin_eval sound t ofT).bind fun _ _ whenTrue => (twin_eval sound e ofE).bind
        fun _ _ whenFalse => twin_apply sound _ (Function.ternary_ne _)
          (.cons (.field sized same) (.cons whenTrue (.cons whenFalse .nil))) _
  | call name args, plain => by
    obtain ⟨here, below⟩ := List.forall_mem_cons.mp plain
    refine Twin.remember sound _ ?_
    cases known : functions.get? name with
    | none => exact twin_fail _
    | some f =>
      dsimp only
      split
      · exact twin_fail _
      · exact (twin_evalList sound args below).bind fun vs vs' values => twin_apply sound name
          (fun r same => here name args r rfl (same ▸ known)) values _

theorem twin_evalList (sound : Extents s extents) : ∀ xs : List (Expr β),
    (∀ x ∈ subtreesOfList xs, Elementwise functions x) →
      Twin extents (List.Forall₂ (Value.Twin extents)) (evalList s functions xs : Eval β α _)
        (evalList s functions xs)
  | [], _ => twin_pure .nil
  | x :: xs, plain => by
    obtain ⟨head, tail⟩ := List.forall_mem_append.mp plain
    exact (twin_eval sound x head).bind fun _ _ here => (twin_evalList sound xs tail).bind
      fun _ _ below => twin_pure (.cons here below)

theorem twin_evalSum (sound : Extents s extents) {total total' : Value α}
    (totals : Value.Twin extents total total') : ∀ xs : List (Expr β),
    (∀ x ∈ subtreesOfList xs, Elementwise functions x) →
      Twin extents (Value.Twin extents) (evalSum s functions total xs : Eval β α (Value α))
        (evalSum s functions total' xs)
  | [], _ => twin_pure totals
  | x :: xs, plain => by
    obtain ⟨head, tail⟩ := List.forall_mem_append.mp plain
    exact (twin_eval sound x head).bind fun _ _ term => (twin_apply sound _ (Function.binary_ne _)
      (.cons totals (.cons term .nil)) _).bind fun _ _ sums => twin_evalSum sound sums xs tail

theorem twin_evalProduct (sound : Extents s extents) {total total' : Value α}
    (totals : Value.Twin extents total total') : ∀ xs : List (Expr β),
    (∀ x ∈ subtreesOfList xs, Elementwise functions x) →
      Twin extents (Value.Twin extents) (evalProduct s functions total xs : Eval β α (Value α))
        (evalProduct s functions total' xs)
  | [], _ => twin_pure totals
  | x :: xs, plain => by
    obtain ⟨head, tail⟩ := List.forall_mem_append.mp plain
    refine (twin_eval sound x head).bind fun v v' factor => ?_
    rw [factor.isScalarZero]
    split
    · exact twin_pure (.scalar 0)
    · exact (twin_apply sound _ (Function.binary_ne _) (.cons totals (.cons factor .nil)) _).bind
        fun _ _ products => twin_evalProduct sound products xs tail

end

/-- Edge values that are read on an expected domain have the same elements there. -/
theorem widenTo_expand {expected : Option Domain} {v v' : Value α}
    (through : ∀ d, expected = some d → d.isElementEdge = true → ∀ n, extents .edge n →
      ∀ j ∈ s.edgeMap d, j < n) (twin : Value.Twin extents v v') :
    (widenTo s expected v').expand = (widenTo s expected v).expand := by
  cases twin with
  | @field source x x' sized same =>
    by_cases widens : source = .edge ∧ ∃ d, expected = some d ∧ d.isElementEdge = true
    · obtain ⟨rfl, d, rfl, elementEdge⟩ := widens
      have inside := through d rfl elementEdge _ sized
      simp only [widenTo, elementEdge, if_true]
      refine congrArg (Value.field d) (Field.expand_eq_iff.mpr ?_)
      rw [Field.toArray_gather _ x inside,
        Field.toArray_gather _ x' (Field.size_eq_of_expand same ▸ inside),
        Field.expand_eq_iff.mp same]
    · have kept : ∀ y : Field α, widenTo s expected (.field source y) = .field source y := by
        intro y
        unfold widenTo
        split
        next d data here =>
          rw [if_neg fun elementEdge => widens ⟨(Value.field.inj here).1, d, rfl, elementEdge⟩]
        · rfl
      rw [kept, kept]
      exact congrArg (Value.field source) same
  | _ => cases expected <;> rfl

theorem twin_evaluate (sound : Extents s extents) {expected : Option Domain}
    (through : ∀ d, expected = some d → d.isElementEdge = true → ∀ n, extents .edge n →
      ∀ j ∈ s.edgeMap d, j < n) {e : Expr β} (plain : ∀ x ∈ e.subtrees, Elementwise functions x) :
    Query.Twin extents (fun r r' : Evaluation α => r'.value.expand = r.value.expand ∧
        r'.errors = r.errors)
      (e.evaluate s functions expected : Query β α _) (e.evaluate s functions expected) :=
  (twin_eval sound e plain {} {} ⟨.nil, rfl⟩).bind fun _ _ ⟨values, sessions⟩ =>
    .done ⟨widenTo_expand through values, sessions.errors⟩

end Expr

/-! ## Contexts -/

/-- The answer with its elements stored one by one. -/
def LookupResult.expand (answer : LookupResult α) : LookupResult α :=
  answer.map (Option.map fun found => { found with data := found.data.expand })

theorem LookupResult.twin_of_expand {a a' : LookupResult α}
    (same : LookupResult.expand a' = LookupResult.expand a)
    (sized : ∀ found, a = .ok (some found) → extents found.domain found.data.size) :
    LookupResult.Twin extents a a' := by
  rcases a with e | _ | found <;> rcases a' with e' | _ | found' <;>
    simp only [LookupResult.expand, Except.map, Option.map, Except.ok.injEq, Except.error.injEq,
      Option.some.injEq, reduceCtorEq] at same
  · exact same ▸ .error e'
  · exact .unknown
  · obtain ⟨d, x⟩ := found
    obtain ⟨d', x'⟩ := found'
    obtain ⟨rfl, fields⟩ := Resolved.mk.inj same
    exact .found (sized _ rfl) fields

namespace Context

/-- The context with the elements of all its fields stored one by one. -/
def expand (c : Context β α) : Context β α :=
  { c with lookup := fun name => LookupResult.expand (c.lookup name) }

@[simp] theorem expand_expand (c : Context β α) : c.expand.expand = c.expand := by
  have lookups (name : String) : LookupResult.expand (LookupResult.expand (c.lookup name)) =
      LookupResult.expand (c.lookup name) := by
    rcases c.lookup name with e | _ | found <;> rfl
  exact congrArg (Context.mk · c.parameter c.surroundings) (funext lookups)

/-- The context has a field on the domain with so many elements under one of the names. -/
def Extent (c : Context β α) (names : List String) (d : Domain) (n : Nat) : Prop :=
  ∃ name ∈ names, ∃ found, c.lookup name = .ok (some found) ∧ found.domain = d ∧
    found.data.size = n

/-- The fields in use have elements, and the edge maps in use name edges that exist. -/
structure Populated (c : Context β α) (names : List String) (expected : Option Domain) : Prop where
  fields : ∀ d n, c.Extent names d n → 0 < n
  edges : ∀ d, d.isElementEdge = true → (expected = some d ∨ ∃ m, c.Extent names d m) →
    ∀ n, c.Extent names .edge n → ∀ j ∈ c.surroundings.edgeMap d, j < n

theorem Populated.sound {c : Context β α} {names : List String} {expected : Option Domain}
    (populated : c.Populated names expected) : Extents c.surroundings (c.Extent names) :=
  ⟨populated.fields, fun d m reached elementEdge =>
    populated.edges d elementEdge (.inr ⟨m, reached⟩)⟩

end Context

/-- Queries that correspond have related results in contexts that answer what is asked alike. -/
theorem Query.Twin.answer {related : ρ → σ → Prop} {q : Query β α ρ} {q' : Query β α σ}
    (twin : Query.Twin extents related q q') {c c' : Context β α} {allowed : Question → Prop}
    {post : Option String → ρ → Prop} {seen : Option String} (meets : q.Meets allowed post seen)
    (models : ∀ name, allowed (.model name) →
      LookupResult.Twin extents (c.lookup name) (c'.lookup name))
    (parameters : c'.parameter = c.parameter) : related (c.answer q) (c'.answer q') := by
  induction twin generalizing seen with
  | done holds => exact holds
  | lookup name _ ih => exact ih _ _ (models name meets.1) (meets.2 _)
  | parameter name _ ih =>
    rw [Context.answer, Context.answer, parameters]
    exact ih _ (meets.2 _)

variable [BaseScalar β] [Scalar α] [Precision β α]

theorem Expr.evaluate_expand {functions : Registry α} {e : Expr β} {expected : Option Domain}
    {c c' : Context β α} (plain : ∀ x ∈ e.subtrees, Elementwise functions x)
    (populated : c.Populated e.referencedNames expected) (same : c'.expand = c.expand) :
    (c'.answer (e.evaluate c'.surroundings functions expected)).value.expand =
        (c.answer (e.evaluate c.surroundings functions expected)).value.expand ∧
      (c'.answer (e.evaluate c'.surroundings functions expected)).errors =
        (c.answer (e.evaluate c.surroundings functions expected)).errors := by
  obtain ⟨lookups, parameters, surroundings⟩ := Context.mk.inj same
  rw [surroundings]
  refine (twin_evaluate populated.sound (fun d here elementEdge =>
    populated.edges d elementEdge (.inl here)) plain).answer
      (e.meets_evaluate c.surroundings functions expected) (fun name leaf => ?_) parameters
  exact LookupResult.twin_of_expand (congrFun lookups name) fun found answered =>
    ⟨name, name_mem_of_leaf leaf, found, answered, rfl, rfl⟩

def shared : Context ℚ ℚ where
  lookup name :=
    if name = "E" then .ok (some ⟨.edge, .uniform 2 3⟩)
    else if name = "T" then .ok (some ⟨.triangleEdge, .vector #[1, 0, 5]⟩)
    else .ok none
  parameter _ := none
  surroundings := { edgeMap := fun _ => #[2, 0, 1], chunking := .serial }

end FiniteVolume
