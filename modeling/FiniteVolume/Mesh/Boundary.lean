import FiniteVolume.Mesh.Basic
import FiniteVolume.Side

/-!
Named boundaries: a contact is a set of nodes of one region, an interface a list of coincident node
pairs of two regions.
-/
namespace FiniteVolume

/-- Put a number in its place of an ascending list, unless it is there. -/
def insertAscending (n : Nat) : List Nat → List Nat
  | [] => [n]
  | m :: rest =>
    if n < m then n :: m :: rest else if n = m then m :: rest else m :: insertAscending n rest

def ascending (ns : List Nat) : List Nat := ns.foldr insertAscending []

theorem mem_insertAscending {m n : Nat} {ns : List Nat} :
    m ∈ insertAscending n ns ↔ m = n ∨ m ∈ ns := by
  induction ns with
  | nil => simp [insertAscending]
  | cons k rest ih =>
    unfold insertAscending
    split
    · simp
    · split
      · next same => simp [same]
      · simp [ih, or_left_comm]

theorem pairwise_insertAscending (n : Nat) {ns : List Nat} (sorted : ns.Pairwise (· < ·)) :
    (insertAscending n ns).Pairwise (· < ·) := by
  induction ns with
  | nil => simp [insertAscending]
  | cons k rest ih =>
    obtain ⟨first, later⟩ := List.pairwise_cons.mp sorted
    unfold insertAscending
    split
    · next below =>
      refine .cons ?_ sorted
      intro m member
      rcases List.mem_cons.mp member with rfl | inRest
      · exact below
      · exact Nat.lt_trans below (first m inRest)
    · split
      · exact sorted
      · refine .cons ?_ (ih later)
        intro m member
        rcases mem_insertAscending.mp member with rfl | inRest
        · omega
        · exact first m inRest

theorem mem_ascending {m : Nat} {ns : List Nat} : m ∈ ascending ns ↔ m ∈ ns := by
  induction ns with
  | nil => simp [ascending]
  | cons n rest ih =>
    have step : ascending (n :: rest) = insertAscending n (ascending rest) := rfl
    rw [step, mem_insertAscending, ih, List.mem_cons]

theorem pairwise_ascending (ns : List Nat) : (ascending ns).Pairwise (· < ·) := by
  induction ns with
  | nil => exact .nil
  | cons n rest ih => exact pairwise_insertAscending n ih

class Ascending (ns : List Nat) : Prop where
  pairwise : ns.Pairwise (· < ·)

instance : Ascending [] := ⟨.nil⟩

instance (n : Nat) : Ascending [n] := ⟨List.pairwise_singleton _ _⟩

instance (ns : List Nat) : Ascending (ascending ns) := ⟨pairwise_ascending ns⟩

/-- Whether an ascending list holds a number from the position `low` on and before `high`, by
halving. -/
def searchBetween (ns : List Nat) (n low high : Nat) : Bool :=
  if low < high then
    let middle := low + (high - low) / 2
    match ns[middle]? with
    | none => false
    | some m =>
      if m < n then searchBetween ns n (middle + 1) high
      else if n < m then searchBetween ns n low middle
      else true
  else false
termination_by high - low

/-- Nodes of a region under a name, in ascending order. -/
structure Contact where
  name : String
  region : String
  nodes : List Nat
  [sorted : Ascending nodes]
  deriving Repr, DecidableEq

/-- A contact on the given nodes of a region with `nodeCount` nodes. -/
def Contact.of (name region : String) (nodes : List Nat) (nodeCount : Nat) :
    Except MeshError Contact :=
  if nodes.isEmpty then .error (.emptyBoundary name)
  else
    match nodes.find? (nodeCount ≤ ·) with
    | some node => .error (.boundaryNodeOutOfRange name node nodeCount)
    | none => .ok ⟨name, region, ascending nodes⟩

def Contact.contains (c : Contact) (node : Nat) : Bool := searchBetween c.nodes node 0 c.nodes.length

/-- Coincident nodes of two regions: the first of each pair lies in region 0, the second in
region 1. -/
structure Interface where
  name : String
  region0 : String
  region1 : String
  pairs : List (Nat × Nat)
  deriving Repr, DecidableEq

namespace Interface

/-- An interface over the given pairs, the regions given by name and node count. -/
def of (name : String) (side0 side1 : String × Nat) (pairs : List (Nat × Nat)) :
    Except MeshError Interface :=
  if pairs.isEmpty then .error (.emptyBoundary name)
  else
    let fault := pairs.findSome? fun (a, b) =>
      if side0.2 ≤ a then some (MeshError.boundaryNodeOutOfRange name a side0.2)
      else if side1.2 ≤ b then some (.boundaryNodeOutOfRange name b side1.2)
      else none
    match fault with
    | some error => .error error
    | none => .ok ⟨name, side0.1, side1.1, pairs⟩

def size (i : Interface) : Nat := i.pairs.length

def region (i : Interface) : Side → String
  | .first => i.region0
  | .second => i.region1

def nodeOf : Side → Nat × Nat → Nat
  | .first => Prod.fst
  | .second => Prod.snd

def nodes (i : Interface) (side : Side) : List Nat := i.pairs.map (nodeOf side)

end Interface

/-- Whether a node is set in a mask; nodes beyond the mask are not. -/
def isActive (mask : Array Bool) (node : Nat) : Bool := mask[node]?.getD false

/-- Set the listed nodes in a mask. Nodes beyond the mask are passed over. -/
def setNodes (mask : Array Bool) (nodes : List Nat) : Array Bool :=
  nodes.foldl (fun mask n => if n < mask.size then mask.setIfInBounds n true else mask) mask

def clearNodes (mask : Array Bool) (nodes : List Nat) : Array Bool :=
  nodes.foldl (fun mask n => if isActive mask n then mask.setIfInBounds n false else mask) mask

/-- Which nodes a contact owns when earlier contacts claim theirs: its own nodes are set first, and
then those of the earlier contacts are cleared. -/
def activeNodes (nodeCount : Nat) (contact : Contact) (claimed : List Contact) : Array Bool :=
  claimed.foldl (fun mask earlier => clearNodes mask earlier.nodes)
    (setNodes (Array.replicate nodeCount false) contact.nodes)

end FiniteVolume
