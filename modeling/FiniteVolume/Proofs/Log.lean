import FiniteVolume.Log

/-!
Records that an operation adds to the log, and what it ends with.

Operations that begin where the one before ended, and announce the errors they end with by a fatal
record, make up an operation that does so (`Log.Tells.trans`).
-/
namespace FiniteVolume.Log

variable {ε ε' ρ υ : Type} {announced : ε → Prop} {announced' : ε' → Prop} {log log' log'' : Log}

@[simp] theorem append_empty (log : Log) : log.append {} = log := by simp [append]

theorem append_assoc (log log' log'' : Log) :
    (log.append log').append log'' = log.append (log'.append log'') := by simp [append]

theorem write_eq (log : Log) (severity : Severity) (scope : Scope) (message : String) :
    log.write severity scope message = log.append (write {} severity scope message) := rfl

@[simp] theorem hasFatal_empty : ({} : Log).hasFatal = false := rfl

@[simp] theorem hasFatal_append (log log' : Log) :
    (log.append log').hasFatal = (log.hasFatal || log'.hasFatal) := List.any_append

@[simp] theorem hasFatal_write (log : Log) (severity : Severity) (scope : Scope) (message : String) :
    (log.write severity scope message).hasFatal = (log.hasFatal || decide (severity = .fatal)) := by
  rw [write_eq, hasFatal_append]
  cases severity <;> rfl

/-- The log grew, by a fatal record exactly if the result is an announced error. -/
def Tells (announced : ε → Prop) (log log' : Log) (result : Except ε ρ) : Prop :=
  ∃ written : Log, log' = log.append written ∧
    (written.hasFatal = true ↔ ∃ e, result = .error e ∧ announced e)

theorem tells_ok {x : ρ} : Tells announced log log' (.ok x : Except ε ρ) ↔
    ∃ written : Log, log' = log.append written ∧ written.hasFatal = false := by
  simp [Tells]

theorem tells_error {e : ε} : Tells announced log log' (.error e : Except ε ρ) ↔
    ∃ written : Log, log' = log.append written ∧ (written.hasFatal = true ↔ announced e) := by
  simp [Tells]

namespace Tells

theorem ok (x : ρ) : Tells announced log log (.ok x : Except ε ρ) :=
  tells_ok.mpr ⟨{}, by simp⟩

theorem error {e : ε} (silent : ¬announced e) : Tells announced log log (.error e : Except ε ρ) :=
  tells_error.mpr ⟨{}, by simp [silent]⟩

theorem fatal {e : ε} (tells : announced e) (scope : Scope) (message : String) :
    Tells announced log (log.write .fatal scope message) (.error e : Except ε ρ) :=
  tells_error.mpr ⟨_, write_eq .., by simp [tells]⟩

theorem mild {severity : Severity} (mild : severity ≠ .fatal) (scope : Scope) (message : String) (x : ρ) :
    Tells announced log (log.write severity scope message) (.ok x : Except ε ρ) :=
  tells_ok.mpr ⟨_, write_eq .., by simp [mild]⟩

theorem trans {x : υ} {result : Except ε ρ} (first : Tells announced log log' (.ok x : Except ε υ))
    (second : Tells announced log' log'' result) : Tells announced log log'' result := by
  obtain ⟨written, rfl, mild⟩ := tells_ok.mp first
  obtain ⟨written', rfl, tells⟩ := second
  refine ⟨written.append written', append_assoc .., ?_⟩
  rwa [hasFatal_append, mild, Bool.false_or]

theorem of_ok {x : υ} {y : ρ} (tells : Tells announced' log log' (.ok x : Except ε' υ)) :
    Tells announced log log' (.ok y : Except ε ρ) := tells_ok.mpr (tells_ok.mp tells)

theorem of_error {e : ε} {e' : ε'} (tells : Tells announced' log log' (.error e' : Except ε' υ))
    (same : announced e ↔ announced' e') : Tells announced log log' (.error e : Except ε ρ) := by
  rwa [tells_error, same, ← tells_error]

/-- What ends with an unannounced error wrote no fatal record. -/
theorem quiet {e : ε'} (tells : Tells announced' log log' (.error e : Except ε' υ))
    (silent : ¬announced' e) (x : ρ) : Tells announced log log' (.ok x : Except ε ρ) := by
  simpa [tells_ok, tells_error, silent] using tells

end Tells

end FiniteVolume.Log
