import FiniteVolume.Ordered.Set
import FiniteVolume.Ordered.Table

/-!
Which models must be recomputed when a name changes.

Dependencies relate names, not models: a name may have dependents before any model carries it. The
relation is kept in both directions, each in the order in which pairs were registered.
`Dependencies.wave` lists everything downstream of a name.
-/
namespace FiniteVolume

/-- The relation "is computed from", by model and by name read. -/
structure Dependencies where
  sources : Table String (OrderedSet String) := ∅
  dependents : Table String (OrderedSet String) := ∅

namespace Dependencies

def setAt (t : Table String (OrderedSet String)) (k : String) : OrderedSet String :=
  (t.get? k).getD ∅

def sourcesOf (g : Dependencies) (model : String) : List String := (setAt g.sources model).elems

def dependentsOf (g : Dependencies) (name : String) : List String := (setAt g.dependents name).elems

def referenced (g : Dependencies) : List String := g.dependents.keys

def register (g : Dependencies) (model name : String) : Dependencies where
  sources := g.sources.insert model ((setAt g.sources model).insert name)
  dependents := g.dependents.insert name ((setAt g.dependents name).insert model)

/-- Remove a dependent of a name. A name without dependents is forgotten. -/
def removeDependent (t : Table String (OrderedSet String)) (name model : String) :
    Table String (OrderedSet String) :=
  match t.get? name with
  | none => t
  | some models =>
    let rest := models.erase model
    if rest.isEmpty then t.erase name else t.insert name rest

/-- Forget what `model` is computed from. What is computed from `model` stays registered. -/
def unregister (g : Dependencies) (model : String) : Dependencies :=
  match g.sources.get? model with
  | none => g
  | some names =>
    { sources := g.sources.erase model
      dependents := names.elems.foldl (removeDependent · · model) g.dependents }

/-- Add the dependents of the name at `position` and of every later name, for at most `steps`
positions. -/
def extendWave (g : Dependencies) : (steps position : Nat) → OrderedSet String → OrderedSet String
  | 0, _, found => found
  | steps + 1, position, found =>
    match found.elems[position]? with
    | none => found
    | some name => extendWave g steps (position + 1) (found.insertAll (g.dependentsOf name))

/-- Number of registered pairs, a bound on the names downstream of anything. -/
def pairCount (g : Dependencies) : Nat := (g.dependents.values.flatMap (·.elems)).length

/-- Every name downstream of `name`, nearest first. A name is its own dependent only on a cycle. -/
def wave (g : Dependencies) (name : String) : List String :=
  (extendWave g g.pairCount 0 (.ofList (g.dependentsOf name))).elems

end Dependencies

end FiniteVolume
