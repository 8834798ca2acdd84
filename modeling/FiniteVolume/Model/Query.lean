import FiniteVolume.Domain
import FiniteVolume.Field.Basic

/-!
How a model is computed from others.

A `Query` is a computation that may ask its owner for models and parameters, one question at a time,
and in the end gives an answer. The owner decides what the questions mean: the same query runs
against a region, an interface or a fixed table. A `Calculator` is a query for the values of one
model together with the names it may ask for.
-/
namespace FiniteVolume

inductive ModelError where
  | missingModel (domain : Domain) (name : String)
  /-- The model was read while it was being computed. -/
  | cyclicDependency (name : String)
  | lengthMismatch (name : String) (expected actual : Nat)
  | invalidResultType (name : String) (domain : Domain) (found : String)
  | evaluationFailed (name : String) (messages : List String)
  | unknownContact (name : String)
  | nodeOutOfRange (node nodeCount : Nat)
  deriving Repr, DecidableEq

/-- Wording of a failure; the messages of an evaluation follow on lines of their own. -/
def ModelError.message : ModelError → String
  | missingModel domain name => "could not find " ++ domain.text ++ " model \"" ++ name ++ "\""
  | cyclicDependency name => "cyclic dependency while evaluating model \"" ++ name ++ "\""
  | lengthMismatch name expected actual =>
    "model \"" ++ name ++ s!"\" expects {expected} values, got {actual}"
  | invalidResultType name domain found =>
    domain.text ++ " model \"" ++ name ++ "\" evaluates to " ++ found
  | evaluationFailed name messages =>
    "while evaluating model \"" ++ name ++ "\"" ++ String.join (messages.map ("\n" ++ ·))
  | unknownContact name => "unknown contact \"" ++ name ++ "\""
  | nodeOutOfRange node nodeCount => s!"node {node} out of range (node count {nodeCount})"

/-- A name found by its owner: the values and the domain they live on. -/
structure Resolved (α : Type) where
  domain : Domain
  data : Field α
  deriving Repr

abbrev LookupResult (α : Type) := Except ModelError (Option (Resolved α))

/-- A computation that asks its owner for models and parameters. -/
inductive Query (β α ρ : Type) where
  | done (result : ρ)
  | lookup (name : String) (next : LookupResult α → Query β α ρ)
  | parameter (name : String) (next : Option β → Query β α ρ)

namespace Query

variable {β α ρ σ : Type} {m : Type → Type}

def bind : Query β α ρ → (ρ → Query β α σ) → Query β α σ
  | done r, f => f r
  | lookup name next, f => lookup name fun a => (next a).bind f
  | parameter name next, f => parameter name fun a => (next a).bind f

instance : Monad (Query β α) where
  pure := done
  bind := bind

def ask (name : String) : Query β α (LookupResult α) := lookup name done

def askParameter (name : String) : Query β α (Option β) := parameter name done

def run [Monad m] (onLookup : String → m (LookupResult α)) (onParameter : String → m (Option β)) :
    Query β α ρ → m ρ
  | done r => pure r
  | lookup name next => do run onLookup onParameter (next (← onLookup name))
  | parameter name next => do run onLookup onParameter (next (← onParameter name))

end Query

/-- What an evaluation may know of its owner without asking. -/
structure Surroundings where
  /-- The edge of every element edge of a domain. -/
  edgeMap : Domain → Array Nat
  /-- How elementwise work is divided. -/
  chunking : Chunking

structure Target where
  name : String
  domain : Domain
  /-- Number of entities of the domain. -/
  size : Nat
  /-- The contact the model is restricted to. -/
  contact : Option String
  deriving Repr, DecidableEq

/-- What a calculator returns: values or a failure, and remarks on values that are usable all the
same. -/
structure Outcome (α : Type) where
  result : Except ModelError (Field α)
  remarks : List String := []

structure Calculator (β α : Type) where
  calculate : Surroundings → Target → Query β α (Outcome α)
  /-- Names whose change makes the values outdated. -/
  dependencies : List String
  /-- Text that recreates the calculation. -/
  expression : Option String

end FiniteVolume
