import FiniteVolume.Expression.Evaluation

/-!
Contexts: owners whose answers depend only on the name that is asked for. A query against a context
has one result; `Context.trace` also lists the models that were asked for, in order.
-/
namespace FiniteVolume

structure Context (β α : Type) where
  lookup : String → LookupResult α
  parameter : String → Option β
  surroundings : Surroundings

namespace Context

variable {β α ρ : Type}

def answer (c : Context β α) : Query β α ρ → ρ
  | .done r => r
  | .lookup name next => c.answer (next (c.lookup name))
  | .parameter name next => c.answer (next (c.parameter name))

/-- The result of a query and the models that it asked for, in order. -/
def trace (c : Context β α) : Query β α ρ → ρ × List String
  | .done r => (r, [])
  | .lookup name next =>
    let (r, names) := c.trace (next (c.lookup name))
    (r, name :: names)
  | .parameter name next => c.trace (next (c.parameter name))

@[simp] theorem trace_fst (c : Context β α) (q : Query β α ρ) : (c.trace q).1 = c.answer q := by
  induction q with
  | done r => rfl
  | lookup name next ih => exact ih _
  | parameter name next ih => exact ih _

end Context

end FiniteVolume
