import FiniteVolume.Ordered.Table

/-!
Circuit nodes: where contacts exchange current and charge with a circuit outside the device. Every
node has a value and, after the rows of the regions, a row.
-/
namespace FiniteVolume

structure Circuit (β : Type) where
  /-- Row of the first node. -/
  base : Nat := 0
  nodes : Table String β := ∅

namespace Circuit

variable {β : Type}

def size (c : Circuit β) : Nat := c.nodes.size

/-- Register a node with a value, or give a registered one a new value. -/
def add (c : Circuit β) (name : String) (value : β) : Circuit β :=
  { c with nodes := c.nodes.insert name value }

def setValue (c : Circuit β) (name : String) (value : β) : Circuit β :=
  { c with nodes := c.nodes.modify name fun _ => value }

def contains (c : Circuit β) (name : String) : Bool := c.nodes.contains name

def value? (c : Circuit β) (name : String) : Option β := c.nodes.get? name

def index? (c : Circuit β) (name : String) : Option Nat := c.nodes.position? name

def row? (c : Circuit β) (name : String) : Option Nat := (c.index? name).map (c.base + ·)

/-- Names with rows and values, in row order. -/
def toList (c : Circuit β) : List (String × Nat × β) :=
  c.nodes.toList.zipIdx.map fun ((name, value), i) => (name, c.base + i, value)

end Circuit

end FiniteVolume
