import FiniteVolume.Mesh.Basic
import Mathlib.Data.List.Basic

/-!
What numbering the edges of a mesh one after another comes to.

An edge keeps its number while others are added, so in the end every local edge carries its position
among all edges, and elements are refused for the first fault of any of them.
-/
namespace FiniteVolume

namespace OrderedSet

variable {κ : Type} [DecidableEq κ] {s : OrderedSet κ} {x : κ} {xs ys : List κ}

theorem insertAll_cons : s.insertAll (x :: xs) = (s.insert x).insertAll xs := rfl

theorem insertAll_append : s.insertAll (xs ++ ys) = (s.insertAll xs).insertAll ys :=
  List.foldl_append

theorem position_insertAll (present : x ∈ s.elems) (xs : List κ) :
    (s.insertAll xs).position x = s.position x := by
  obtain ⟨added, same⟩ := elems_prefix_insertAll s xs
  rw [position, ← same, List.idxOf_append_of_mem present, position]

end OrderedSet

namespace Mesh

variable {β : Type}

theorem numberEdges_eq (known : OrderedSet Edge) (es : List Edge) :
    numberEdges known es = (es.map (known.insertAll es).position, known.insertAll es) := by
  induction es generalizing known with
  | nil => rfl
  | cons e rest ih =>
    have present : e ∈ (known.insert e).elems := OrderedSet.mem_elems_insert.mpr (.inl rfl)
    rw [numberEdges, ih, List.map_cons, OrderedSet.insertAll_cons,
      OrderedSet.position_insertAll present]

theorem line_eq [Zero β] (xs : List β) :
    line xs =
      if xs.length < 2 then .error (.tooFewNodes xs.length 2)
      else .ok {
        shape := .segment
        points := (xs.map fun x => ⟨x, 0, 0⟩).toArray
        edges := (OrderedSet.ofList ((List.range (xs.length - 1)).map fun i =>
          Edge.between i (i + 1))).elems.toArray
        elements := #[] } := by
  unfold line
  rw [numberEdges_eq]
  rfl

def firstFault? (nodeCount element : Nat) (elements : List (List Nat)) : Option MeshError :=
  (elements.zipIdx element).findSome? fun (nodes, i) => elementFault? nodeCount i nodes

theorem firstFault?_cons (nodeCount element : Nat) (nodes : List Nat) (rest : List (List Nat)) :
    firstFault? nodeCount element (nodes :: rest) =
      (elementFault? nodeCount element nodes).or (firstFault? nodeCount (element + 1) rest) := by
  simp only [firstFault?, List.zipIdx_cons, List.findSome?_cons]
  cases elementFault? nodeCount element nodes <;> rfl

/-- Elements without faults carry the positions of their edges among all edges. -/
theorem numberElements_eq (shape : Shape) (nodeCount element : Nat) (known : OrderedSet Edge)
    (elements : List (List Nat)) :
    numberElements shape nodeCount element known elements =
      match firstFault? nodeCount element elements with
      | some fault => .error fault
      | none =>
        let all := known.insertAll (elements.flatMap (edgesOf shape))
        .ok (elements.map fun nodes => ⟨nodes, (edgesOf shape nodes).map all.position⟩, all) := by
  induction elements generalizing element known with
  | nil => rfl
  | cons nodes rest ih =>
    rw [numberElements, firstFault?_cons]
    cases elementFault? nodeCount element nodes with
    | some fault => rfl
    | none =>
      simp only [numberEdges_eq, ih, Option.none_or]
      cases firstFault? nodeCount (element + 1) rest with
      | some fault => rfl
      | none =>
        -- The edges of this element were known when the later ones were added.
        have kept : ∀ e ∈ edgesOf shape nodes,
            ((known.insertAll (edgesOf shape nodes)).insertAll
              (rest.flatMap (edgesOf shape))).position e =
              (known.insertAll (edgesOf shape nodes)).position e := fun e member =>
          OrderedSet.position_insertAll (OrderedSet.mem_elems_insertAll.mpr (.inr member)) _
        simp only [List.flatMap_cons, List.map_cons, OrderedSet.insertAll_append,
          List.map_congr_left kept]

theorem ofElements_eq (shape : Shape) (points : Array (Point β)) (elements : List (List Nat)) :
    ofElements shape points elements =
      if points.size < shape.corners then .error (.tooFewNodes points.size shape.corners)
      else
        match firstFault? points.size 0 elements with
        | some fault => .error fault
        | none =>
          let edges := OrderedSet.ofList (elements.flatMap (edgesOf shape))
          .ok {
            shape
            points
            edges := edges.elems.toArray
            elements := (elements.map fun nodes =>
              ⟨nodes, (edgesOf shape nodes).map edges.position⟩).toArray } := by
  unfold ofElements
  split
  · rfl
  · rw [numberElements_eq]
    cases firstFault? points.size 0 elements <;> rfl

end Mesh

end FiniteVolume
