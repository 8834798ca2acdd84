import FiniteVolume.Device.Basic

/-!
Which boundary equation owns a node. Of the contacts of a region that carry an equation of one name,
the one added first owns a shared node; an interface equation owns the pairs whose nodes no contact
equation and no earlier interface equation has claimed.
-/
namespace FiniteVolume.Device

variable {β α : Type} [BaseScalar β]

def carries (d : Device β α) (region contact equation : String) : Bool :=
  d.contactEquations.any fun (region', e) =>
    region' = region ∧ e.contact = contact ∧ e.name = equation

def contactMask (d : Device β α) (region : String) (e : ContactEquation β) : Array Bool :=
  match d.parts.regions.get? region with
  | none => #[]
  | some r =>
    match r.contacts.get? e.contact with
    | none => Array.replicate r.nodeCount false
    | some contact =>
      let earlier := r.contacts.values.takeWhile (·.name ≠ e.contact)
      activeNodes r.nodeCount contact (earlier.filter fun c => d.carries region c.name e.name)

def claimedByContact (d : Device β α) (region : String) (node : Nat) (equation : String) : Bool :=
  d.contactEquations.any fun (region', e) =>
    region' = region && e.name = equation &&
      ((d.parts.regions.get? region).bind (·.contacts.get? e.contact)).any (·.contains node)

/-- Whether one of the given interface equations couples an equation of a region at a node. -/
def claimedByInterface (d : Device β α) (before : List (String × InterfaceEquation))
    (region : String) (node : Nat) (equation : String) : Bool :=
  before.any fun (name, e) =>
    (d.parts.junctions.get? name).any fun j =>
      Side.both.any fun side =>
        j.geometry.region side = region && e.sideName side = equation &&
          decide (node ∈ j.geometry.nodes side)

/-- The pairs that an interface equation owns when the given ones come before it. -/
def interfaceMask (d : Device β α) (before : List (String × InterfaceEquation)) (name : String)
    (e : InterfaceEquation) : Array Bool :=
  match d.parts.junctions.get? name with
  | none => #[]
  | some j => (j.geometry.pairs.map fun pair => Side.both.all fun side =>
      let node := Interface.nodeOf side pair
      let region := j.geometry.region side
      !d.claimedByContact region node (e.sideName side)
        && !d.claimedByInterface before region node (e.sideName side)).toArray

def ownedNodes (d : Device β α) : List (String × ContactEquation β × Array Bool) :=
  d.contactEquations.map fun (region, e) => (region, e, d.contactMask region e)

def ownedPairs (d : Device β α) : List (String × InterfaceEquation × Array Bool) :=
  d.interfaceEquations.zipIdx.map fun ((name, e), i) =>
    (name, e, d.interfaceMask (d.interfaceEquations.take i) name e)

end FiniteVolume.Device
