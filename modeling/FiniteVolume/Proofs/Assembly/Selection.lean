import FiniteVolume.Proofs.Assembly.Steps

/-!
Passes for the matrix, for the residual and for both.

An equation is one family of steps, one for each kind of pass: it reads, and then writes what the pass
is for (`Pass.Splits`).
-/
namespace FiniteVolume.Pass

variable {σ α ρ ι : Type}

def nothing : Effect → Prop := fun _ => False

def numbers : Effect → Prop := fun x => x = .matrix ∨ x = .residual

/-- The steps read, whatever the pass is for, and write to the matrix or to the residual as far as it is
for them. What they do in a pass over rows is left open. -/
inductive Splits (rules : Rules σ α) : (Selector → Pass σ α Unit) → Prop
  | skip : Splits rules fun _ => pure ()
  | look {f : PassState σ α → Selector → Pass σ α Unit}
    (same : ∀ s s', rules.Alike s.owner s'.owner → f s' = f s) (each : ∀ s, Splits rules (f s)) :
    Splits rules fun select => MonadState.get >>= fun s => f s select
  | read {ρ : Type} {a : Pass σ α ρ} {f : ρ → Selector → Pass σ α Unit}
    (first : Composed rules nothing a) (second : ∀ x, Splits rules (f x)) :
    Splits rules fun select => a >>= fun x => f x select
  | seq {f g : Selector → Pass σ α Unit} (first : Splits rules f) (second : Splits rules g) :
    Splits rules fun select => f select >>= fun _ => g select
  | matrix {a : Pass σ α Unit} (composed : Composed rules (· = .matrix) a) :
    Splits rules fun select => if select.wantsMatrix then a else pure ()
  | residual {a : Pass σ α Unit} (composed : Composed rules (· = .residual) a) :
    Splits rules fun select => if select.wantsResidual then a else pure ()
  | numeric {f g : Selector → Pass σ α Unit} (splits : Splits rules g)
    (same : ∀ select, select ≠ .rows → f select = g select) : Splits rules f

namespace Splits

variable {rules : Rules σ α} {f : Selector → Pass σ α Unit}

/-- Steps that only read, whatever the pass is for. -/
theorem quiet {a : Pass σ α Unit} (composed : Composed rules nothing a) : Splits rules fun _ => a := by
  have read : Splits rules fun _ => a >>= fun _ => pure () := .read composed fun _ => .skip
  simpa using read

theorem forM {body : ι → Selector → Pass σ α Unit} {items : List ι} (each : ∀ x, Splits rules (body x)) :
    Splits rules fun select => items.forM fun x => body x select := by
  induction items with
  | nil => exact .skip
  | cons x rest ih => exact (each x).seq ih

theorem composed (splits : Splits rules f) {select : Selector} (numeric : select ≠ .rows) :
    Composed rules numbers (f select) := by
  induction splits with
  | skip => exact .pure ()
  | look same _ each => exact .look (fun s s' alike => congrFun (same s s' alike) select) each
  | read first _ second => exact (first.mono fun _ => False.elim).bind second
  | seq _ _ first second => exact first.bind fun _ => second
  | matrix composed =>
    dsimp only
    split
    · exact composed.mono fun _ => .inl
    · exact .pure ()
  | residual composed =>
    dsimp only
    split
    · exact composed.mono fun _ => .inr
    · exact .pure ()
  | numeric _ same composed =>
    rw [same select numeric]
    exact composed

end Splits

end FiniteVolume.Pass
