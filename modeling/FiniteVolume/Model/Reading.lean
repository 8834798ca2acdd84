import FiniteVolume.Model.Region

/-!
Reading models of a region, computing what is stale on the way.

A name is resolved as a model on the first domain that has it; failing that, `m@n0` and `m@n1` are
the node model `m` at the ends of edges, and `m@enK` is the edge model `m@nK` on element edges or the
node model `m` at their corner `K`.

Reads nest, and every model is marked while it is being computed. The depth of nesting is therefore
bounded by the number of models, and a read that meets a marked model reports a cycle.
-/
namespace FiniteVolume

/-- A step that reads a region and may fail; what it did before failing stays done. -/
abbrev RegionRead (β α ρ : Type) := ExceptT ModelError (StateM (Region β α)) ρ

/-- Run a step on part of the state that returns its result with the new state. -/
def RegionRead.ofResult {β α ρ : Type} (f : Region β α → Except ModelError ρ × Region β α) :
    RegionRead β α ρ :=
  fun r => f r

namespace Region

variable {β α : Type} [Scalar α]

def atCorner (r : Region β α) (d : Domain) (corner : Nat) (nodes : Field α) : Field α :=
  nodes.gather r.chunking ((r.mesh.stencil d).filterMap (·[corner]?))

/-- How a name is answered: from the values of which model, and how they are viewed on which domain. -/
structure Resolution (α : Type) where
  /-- The model that is read. -/
  source : Domain × String
  /-- The domain that the name lives on. -/
  domain : Domain
  /-- The values of the name from those of the model. -/
  view : Field α → Field α

def Resolution.answer (found : Resolution α) (data : Field α) : Resolved α :=
  ⟨found.domain, found.view data⟩

def resolve? (r : Region β α) (name : String) : Option (Resolution α) :=
  match r.models.domainOf? name with
  | some d => some ⟨(d, name), d, id⟩
  | none =>
    match Suffix.split? name with
    | some (base, .edgeEnd side) =>
      if r.models.contains .node base then
        some ⟨(.node, base), .edge, r.atCorner .edge side.index⟩
      else none
    | some (base, .elementCorner i) =>
      match r.mesh.elementDomain with
      | none => none
      | some d =>
        if d.corners ≤ i then none
        else
          let atEnd := (Side.ofIndex? i).map fun side => (Suffix.edgeEnd side).apply base
          match atEnd.filter (r.models.contains .edge) with
          | some atEnd =>
            some ⟨(.edge, atEnd), d, fun edges => edges.gather r.chunking (r.mesh.elementEdgeMap d)⟩
          | none =>
            if r.models.contains .node base then some ⟨(.node, base), d, r.atCorner d i⟩ else none
    | some (_, .interfaceSide _) | none => none

def lookupWith (read : Domain → String → RegionRead β α (Field α)) (name : String) :
    RegionRead β α (Option (Resolved α)) := do
  match (← get).resolve? name with
  | none => return none
  | some found => return some (found.answer (← read found.source.1 found.source.2))

def restriction (r : Region β α) (contact : Option String) :
    Except ModelError (Option (List Nat)) :=
  match contact with
  | none => .ok none
  | some name =>
    match r.contacts.get? name with
    | some contact => .ok (some contact.nodes)
    | none => .error (.unknownContact name)

/-- The values to be cached for a model, from the outcome of its calculation. -/
def settle (r : Region β α) (target : Target) (outcome : Outcome α) :
    Except ModelError (Field α) := do
  ModelStore.checked target (← r.restriction target.contact) outcome.result

def beginRead (d : Domain) (name : String) : RegionRead β α (Access β α) :=
  .ofResult fun r =>
    let (access, models) := r.models.begin d name (r.size d)
    (access, { r with models })

/-- End reading a model: keep the remarks on its values and cache them. -/
def endRead (target : Target) (outcome : Outcome α) : RegionRead β α (Field α) :=
  .ofResult fun r =>
    let (result, models) := r.models.conclude target (r.settle target outcome)
    (result, { r with models, notes := r.notes ++ outcome.remarks.map (⟨target.name, ·⟩) })

def runWith {ρ : Type} (lookup : String → RegionRead β α (Option (Resolved α))) (q : Query β α ρ) :
    StateM (Region β α) ρ :=
  q.run (fun name => (lookup name).run) (fun name => return (← get).parameter? name)

/-- Run a calculator, answering lookups with `lookup`, and cache what it returns. -/
def compute (lookup : String → RegionRead β α (Option (Resolved α))) (calculator : Calculator β α)
    (target : Target) : RegionRead β α (Field α) := do
  let outcome ← (runWith lookup (calculator.calculate (← get).surroundings target) :
    StateM (Region β α) (Outcome α))
  endRead target outcome

/-- Read a model, nesting at most `depth` further computations; names asked for deeper down are
answered with `limit`. -/
def readWithin (limit : String → RegionRead β α (Option (Resolved α))) :
    (depth : Nat) → Domain → String → RegionRead β α (Field α)
  | depth, d, name => do
    match ← beginRead d name with
    | .ready data => return data
    | .compute calculator target =>
      match depth with
      | 0 => compute limit calculator target
      | depth + 1 => compute (lookupWith (readWithin limit depth)) calculator target

def reportCycle (name : String) : RegionRead β α (Option (Resolved α)) :=
  throw (.cyclicDependency name)

def read (d : Domain) (name : String) : RegionRead β α (Field α) := fun r =>
  readWithin reportCycle r.models.models.size d name r

def find (name : String) : RegionRead β α (Option (Resolved α)) := fun r =>
  lookupWith (readWithin reportCycle r.models.models.size) name r

def runQuery {ρ : Type} (q : Query β α ρ) : StateM (Region β α) ρ := runWith find q

def setCoordinate [Precision β α] (node : Nat) (axis : Axis) (value : β) : RegionRead β α Unit := do
  let r ← get
  if r.nodeCount ≤ node then throw (.nodeOutOfRange node r.nodeCount)
  let data ← read .node axis.text
  let r ← get
  set (← liftM (m := Except ModelError)
    (r.setData .node axis.text (data.set node (Precision.narrow value))) : Region β α)

end Region

end FiniteVolume
