import FiniteVolume.Dependencies
import FiniteVolume.Model.Query

/-!
The models of one owner, under domain and name, and the protocol of lazy evaluation.

A computed model is stale, being computed or fresh. `ModelStore.begin` hands out a current value or
marks a stale model as being computed; the owner then runs the calculator and calls
`ModelStore.finish`. Whatever changes a name makes everything downstream of it stale.
-/
namespace FiniteVolume

inductive ModelState where
  | stale
  | computing
  | fresh
  deriving Repr, DecidableEq

inductive DisplayType where
  | hidden
  | scalar
  | vector
  deriving Repr, DecidableEq

def DisplayType.text : DisplayType → String
  | hidden => "nodisplay"
  | scalar => "scalar"
  | vector => "vector"

inductive Source (β α : Type) where
  | written
  | computed (calculator : Calculator β α)

structure Model (β α : Type) where
  source : Source β α
  state : ModelState
  /-- The last value, current only in a fresh model. -/
  value : Option (Field α)
  display : DisplayType := .scalar
  /-- The contact a computed model is restricted to. -/
  contact : Option String := none

namespace Model

variable {β α : Type}

def isComputed (m : Model β α) : Bool :=
  match m.source with
  | .written => false
  | .computed _ => true

def expression (m : Model β α) : Option String :=
  match m.source with
  | .written => none
  | .computed calculator => calculator.expression

/-- A fresh computed model becomes stale; any other is left as it is. -/
def outdate (m : Model β α) : Model β α :=
  if m.isComputed ∧ m.state = .fresh then { m with state := .stale } else m

end Model

inductive Access (β α : Type) where
  | ready (data : Field α)
  | compute (calculator : Calculator β α) (target : Target)

/-- The models of one owner and their dependencies, which are shared by all domains. -/
structure ModelStore (β α : Type) where
  models : Table (Domain × String) (Model β α) := ∅
  dependencies : Dependencies := {}

namespace ModelStore

variable {β α : Type}

def get? (s : ModelStore β α) (d : Domain) (name : String) : Option (Model β α) :=
  s.models.get? (d, name)

def contains (s : ModelStore β α) (d : Domain) (name : String) : Bool :=
  s.models.contains (d, name)

def domainOf? (s : ModelStore β α) (name : String) : Option Domain :=
  Domain.all.find? (s.contains · name)

def names (s : ModelStore β α) (d : Domain) : List String :=
  (s.models.keys.filter (·.1 = d)).map (·.2)

def state? (s : ModelStore β α) (d : Domain) (name : String) : Option ModelState :=
  (s.get? d name).map (·.state)

def isFresh (s : ModelStore β α) (d : Domain) (name : String) : Bool :=
  s.state? d name == some .fresh

/-- Make the models of the given names stale, on every domain. -/
def outdate (s : ModelStore β α) (names : List String) : ModelStore β α :=
  { s with models := s.models.mapEntries fun key m => if key.2 ∈ names then m.outdate else m }

def outdateDependents (s : ModelStore β α) (name : String) : ModelStore β α :=
  s.outdate (s.dependencies.wave name)

/-- Make a name and everything downstream of it stale. Written models keep their values. -/
def markOld (s : ModelStore β α) (name : String) : ModelStore β α :=
  (s.outdate [name]).outdateDependents name

def displayOf (s : ModelStore β α) (d : Domain) (name : String) : DisplayType :=
  ((s.get? d name).map (·.display)).getD .scalar

/-- Write the values of a model, replacing a model of the same domain and name. -/
def write (s : ModelStore β α) (d : Domain) (name : String) (data : Field α) : ModelStore β α :=
  let model : Model β α :=
    { source := .written, state := .fresh, value := some data, display := s.displayOf d name }
  { models := s.models.insert (d, name) model
    dependencies := s.dependencies.unregister name : ModelStore β α }.outdateDependents name

/-- Declare a computed model, replacing a model of the same domain and name. It starts stale. -/
def declare (s : ModelStore β α) (d : Domain) (name : String) (calculator : Calculator β α)
    (contact : Option String) : ModelStore β α :=
  let model : Model β α :=
    { source := .computed calculator, state := .stale, value := none
      display := s.displayOf d name, contact }
  let dependencies :=
    calculator.dependencies.foldl (·.register name ·) (s.dependencies.unregister name)
  { models := s.models.insert (d, name) model, dependencies : ModelStore β α }.outdateDependents name

def setDisplay (s : ModelStore β α) (d : Domain) (name : String) (display : DisplayType) :
    ModelStore β α :=
  { s with models := s.models.modify (d, name) fun m => { m with display } }

/-- Remove a model. Its dependents will report the missing name when next read. -/
def remove (s : ModelStore β α) (d : Domain) (name : String) : ModelStore β α :=
  if s.contains d name then
    { models := s.models.erase (d, name)
      dependencies := s.dependencies.unregister name : ModelStore β α }.outdateDependents name
  else s

def replace (s : ModelStore β α) (d : Domain) (name : String) (m : Model β α) : ModelStore β α :=
  { s with models := s.models.modify (d, name) fun _ => m }

/-- Start reading a model over a domain of `size` entities. A stale computed model is marked as
being computed; one that already is gives a cyclic dependency. -/
def begin (s : ModelStore β α) (d : Domain) (name : String) (size : Nat) :
    Except ModelError (Access β α) × ModelStore β α :=
  match s.get? d name with
  | none => (.error (.missingModel d name), s)
  | some m =>
    let cached : Except ModelError (Access β α) := match m.value with
      | some data => .ok (.ready data)
      | none => .error (.missingModel d name)
    match m.state, m.source with
    | .computing, _ => (.error (.cyclicDependency name), s)
    | _, .written => (cached, s)
    | .fresh, .computed _ => (cached, s)
    | .stale, .computed calculator =>
      (.ok (.compute calculator ⟨name, d, size, m.contact⟩),
        s.replace d name { m with state := .computing })

/-- The values to be cached: of the right length, and zero away from the given nodes. -/
def checked [Scalar α] (target : Target) (nodes : Option (List Nat))
    (result : Except ModelError (Field α)) : Except ModelError (Field α) := do
  let data ← result
  if data.size ≠ target.size then throw (.lengthMismatch target.name target.size data.size)
  return match nodes with
    | some nodes => data.restrict nodes
    | none => data

/-- End a read begun with `begin`: cache the values, or leave the model stale and without a value. -/
def conclude (s : ModelStore β α) (target : Target) (result : Except ModelError (Field α)) :
    Except ModelError (Field α) × ModelStore β α :=
  match s.get? target.domain target.name with
  | none => (.error (.missingModel target.domain target.name), s)
  | some m =>
    match result with
    | .ok data =>
      (.ok data, s.replace target.domain target.name { m with value := some data, state := .fresh })
    | .error e =>
      (.error e, s.replace target.domain target.name { m with value := none, state := .stale })

/-- End a read with the result of a calculation, which is checked first. -/
def finish [Scalar α] (s : ModelStore β α) (target : Target) (nodes : Option (List Nat))
    (result : Except ModelError (Field α)) : Except ModelError (Field α) × ModelStore β α :=
  s.conclude target (checked target nodes result)

end ModelStore

end FiniteVolume
