import FiniteVolume.Proofs.Expression.Pointwise
import FiniteVolume.Proofs.Query

/-!
How many elements the values of an evaluation have.

As long as what is looked up has one element for every entity of its domain, so has every value that
an evaluation works with, from memory or not (`Expr.fitting_eval`): numbers have none, and functions
combine operands of one size.
-/
namespace FiniteVolume

variable {β α ρ σ : Type} {size : Domain → Nat}

/-- An answer has one element for every entity of its domain. -/
def LookupResult.Fits (size : Domain → Nat) (answer : LookupResult α) : Prop :=
  ∀ found, answer = .ok (some found) → found.data.size = size found.domain

/-- The values that are remembered have one element for every entity of their domains. -/
def Session.Fits (size : Domain → Nat) (s : Session α) : Prop :=
  ∀ entry ∈ s.remembered, entry.2.Fits size

namespace Value

theorem fits_scalar (x : α) : (scalar x).Fits size := fun _ _ same => by cases same

theorem fits_invalid : (invalid : Value α).Fits size := fun _ _ same => by cases same

variable [Scalar α] {s : Surroundings} {context : String} {v : Value α}

theorem fits_of_applied {f : Function α} {args : List (Value α)} (fits : ∀ v ∈ args, v.Fits size)
    (applied : (do applyTo s.chunking context f (← operands s context args)) = .ok v) :
    v.Fits size := by
  cases combined : operands s context args with
  | error e => simp [combined, bind, Except.bind] at applied
  | ok on =>
    rw [combined] at applied
    cases on with
    | scalars xs =>
      obtain ⟨x, -, rfl⟩ := applyTo_scalars applied
      exact fits_scalar x
    | fields d xs =>
      obtain ⟨common, lifts⟩ := operands_eq_fields_iff.mp combined
      rw [extent_eq common.1 fun v member data same => fits v member d data same] at lifts
      obtain ⟨z, rfl, covers, -⟩ := applyTo_fields (size_of_lifts lifts) applied
      intro d data same
      cases same
      exact covers

theorem fits_of_reduced [BaseScalar β] [Precision β α] {r : Reduction} {args : List (Value α)}
    (reduced : reduce (β := β) context r args = .ok v) : v.Fits size := by
  unfold reduce at reduced
  split at reduced <;> cases reduced <;> exact fits_scalar _

end Value

namespace Eval

/-- A step that keeps what is remembered fitting, with a result as stated. -/
def Fitting (size : Domain → Nat) (fits : ρ → Prop) (a : Eval β α ρ) : Prop :=
  ∀ s : Session α, s.Fits size →
    (a.run s).Given (LookupResult.Fits size) fun r => r.2.Fits size ∧ fits r.1

section

variable {fits : ρ → Prop} {fits' : σ → Prop}

theorem fitting_pure {r : ρ} (holds : fits r) : Fitting size fits (pure r : Eval β α ρ) :=
  fun _ remembered => ⟨remembered, holds⟩

theorem Fitting.bind {a : Eval β α ρ} {f : ρ → Eval β α σ} (first : Fitting size fits a)
    (next : ∀ r, fits r → Fitting size fits' (f r)) : Fitting size fits' (a >>= f) :=
  fun s remembered => (first s remembered).bind fun r holds => next r.1 holds.2 r.2 holds.1

end

theorem fitting_fail (e : EvalError) :
    Fitting size (Value.Fits size) (fail e : Eval β α (Value α)) :=
  fun _ remembered => ⟨remembered, Value.fits_invalid⟩

theorem fitting_ofExcept {r : Except EvalError (Value α)} (fits : ∀ v, r = .ok v → v.Fits size) :
    Fitting size (Value.Fits size) (ofExcept r : Eval β α (Value α)) := by
  cases r with
  | ok v => exact fitting_pure (fits v rfl)
  | error e => exact fitting_fail e

theorem fitting_model (name : String) :
    Fitting size (Value.Fits size) (model name : Eval β α (Value α)) := by
  rintro s remembered (cause | _ | found) answer
  · exact fitting_fail _ s remembered
  · exact fitting_fail _ s remembered
  · refine ⟨remembered, fun d data same => ?_⟩
    cases same
    exact answer found rfl

theorem fitting_parameter [Precision β α] (name : String) :
    Fitting size (Value.Fits size) (parameter name : Eval β α (Value α)) := by
  rintro s remembered (_ | v)
  · exact fitting_fail _ s remembered
  · exact ⟨remembered, Value.fits_scalar _⟩

variable [BaseScalar β] [Scalar α]

theorem Fitting.remember (e : Expr β) {body : Eval β α (Value α)}
    (fitting : Fitting size (Value.Fits size) body) :
    Fitting size (Value.Fits size) (Eval.remember e body) := by
  intro s remembered
  cases looked : s.remembered.lookup e.key with
  | some v =>
    rw [run_remember_of_hit e body looked]
    obtain ⟨before, after, entries, -⟩ := List.lookup_eq_some_iff.mp looked
    exact ⟨remembered, remembered (e.key, v) (entries ▸ by simp)⟩
  | none =>
    rw [run_remember_of_miss e body looked]
    refine (fitting s remembered).bind fun r ⟨remembered', fits⟩ => ?_
    change (keep e r.1 r.2).2.Fits size ∧ (keep e r.1 r.2).1.Fits size
    unfold keep
    cases r.1.isFinite with
    | false => exact ⟨remembered', Value.fits_invalid⟩
    | true =>
      cases r.1.isInvalid with
      | true => exact ⟨remembered', fits⟩
      | false => exact ⟨List.forall_mem_cons.mpr ⟨fits, remembered'⟩, fits⟩

theorem fitting_apply [Precision β α] (s : Surroundings) (context : String) (f : Function α)
    {args : List (Value α)}
    (fits : ∀ v ∈ args, v.Fits size) (reporting : Bool) :
    Fitting size (Value.Fits size) (apply s context f args reporting : Eval β α (Value α)) := by
  unfold apply
  split
  · exact fitting_ofExcept fun v reduced => Value.fits_of_reduced reduced
  · split
    · split
      · exact fitting_fail _
      · exact fitting_pure Value.fits_invalid
    · exact fitting_ofExcept fun v applied => Value.fits_of_applied fits applied

end Eval

namespace Expr

open Eval

variable [BaseScalar β] [Scalar α] [Precision β α] (s : Surroundings) (functions : Registry α)

mutual

/-- The value of an expression has one element for every entity of its domain. -/
theorem fitting_eval : ∀ e : Expr β,
    Fitting size (Value.Fits size) (eval s functions e : Eval β α (Value α))
  | constant _ => fitting_pure (Value.fits_scalar _)
  | invalid _ => fitting_fail _
  | parameter name => (fitting_parameter name).remember _
  | model name => (fitting_model name).remember _
  | sum [] => (fitting_pure (Value.fits_scalar _)).remember _
  | sum (x :: xs) => ((fitting_eval x).bind fun _ fits => fitting_evalSum fits xs).remember _
  | product xs => (fitting_evalProduct (Value.fits_scalar 1) xs).remember _
  | ifThen c t => by
    refine ((fitting_eval c).bind fun v fits => ?_).remember _
    split
    · exact fitting_pure Value.fits_invalid
    · split
      · exact fitting_pure (Value.fits_scalar 0)
      · exact fitting_eval t
    · exact (fitting_eval t).bind fun w selected => fitting_apply s _ _ (by simp [fits, selected]) _
  | ifElse c t e => by
    refine ((fitting_eval c).bind fun v fits => ?_).remember _
    split
    · exact fitting_pure Value.fits_invalid
    · split
      · exact fitting_eval e
      · exact fitting_eval t
    · exact (fitting_eval t).bind fun w whenTrue => (fitting_eval e).bind fun u whenFalse =>
        fitting_apply s _ _ (by simp [fits, whenTrue, whenFalse]) _
  | call name args => by
    refine Fitting.remember _ ?_
    split
    · exact fitting_fail _
    · split
      · exact fitting_fail _
      · exact (fitting_evalList args).bind fun vs fits => fitting_apply s _ _ fits _

theorem fitting_evalList : ∀ xs : List (Expr β),
    Fitting size (fun vs => ∀ v ∈ vs, v.Fits size) (evalList s functions xs : Eval β α _)
  | [] => fitting_pure (by simp)
  | x :: xs => (fitting_eval x).bind fun v fits => (fitting_evalList xs).bind fun vs later =>
    fitting_pure (List.forall_mem_cons.mpr ⟨fits, later⟩)

theorem fitting_evalSum {total : Value α} (fits : total.Fits size) : ∀ xs : List (Expr β),
    Fitting size (Value.Fits size) (evalSum s functions total xs : Eval β α (Value α))
  | [] => fitting_pure fits
  | x :: xs => (fitting_eval x).bind fun v here =>
    (fitting_apply s _ _ (by simp [fits, here]) _).bind fun total fits => fitting_evalSum fits xs

theorem fitting_evalProduct {total : Value α} (fits : total.Fits size) : ∀ xs : List (Expr β),
    Fitting size (Value.Fits size) (evalProduct s functions total xs : Eval β α (Value α))
  | [] => fitting_pure fits
  | x :: xs => by
    refine (fitting_eval x).bind fun v here => ?_
    split
    · exact fitting_pure (Value.fits_scalar 0)
    · exact (fitting_apply s _ _ (by simp [fits, here]) _).bind fun total fits =>
        fitting_evalProduct fits xs

end

end Expr

end FiniteVolume
