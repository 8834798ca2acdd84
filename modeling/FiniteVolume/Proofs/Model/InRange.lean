import FiniteVolume.Equation.Interface
import FiniteVolume.Proofs.Field.Elements
import FiniteVolume.Proofs.Mesh.Corners
import FiniteVolume.Proofs.Model.Coupled
import FiniteVolume.Proofs.Model.Layout

/-!
What is looked up by position exists.

On a mesh as constructors give it, with values that fit, every entity has its corners among the nodes,
every element edge is an edge, and a read returns one value for every entity, also where it gathers
values of another domain (`Region.Regular.inRange`). At an interface, the nodes of the pairs are nodes of
the regions, and reads return one value for every pair (`Coupled.Joined.inRange`).
-/
namespace FiniteVolume

variable {β α : Type} [Scalar α]

namespace Region

variable {r r' : Region β α} {d : Domain} {name : String}

/-- The region lies on a mesh as constructors give it, and its values fit. -/
structure Regular (r : Region β α) : Prop where
  mesh : r.mesh.Cornered
  sized : r.Sized

/-- What is looked up by position during reads and assembly exists. -/
structure InRange (r : Region β α) : Prop where
  /-- Every entity of an edge or element-edge domain has a list of corners. -/
  stencil : ∀ d, d ≠ .node → (r.mesh.stencil d).size = r.size d
  /-- The corners are nodes, as many as the domain says. -/
  corners : ∀ d, ∀ corners ∈ r.mesh.stencil d,
    d.corners ≤ corners.length ∧ ∀ n ∈ corners, n < r.nodeCount
  /-- Every element edge is an edge. -/
  edges : ∀ d, r.mesh.elementDomain = some d → (r.mesh.elementEdgeMap d).size = r.size d ∧
    ∀ edge ∈ r.mesh.elementEdgeMap d, edge < r.size .edge
  /-- A read returns one value for every entity of the domain. -/
  values : ∀ d name data, (r.read d name).1 = .ok data → data.size = r.size d
  /-- So does a name, also where the values of a model are gathered. -/
  found : ∀ name value, (r.find name).1 = .ok (some value) → value.data.size = r.size value.domain

theorem size_atCorner {corner : Nat} (cornered : r.mesh.Cornered) (other : d ≠ .node)
    (inside : corner < d.corners) (nodes : Field α) :
    (r.atCorner d corner nodes).size = r.size d := by
  have each : ∀ corners ∈ r.mesh.stencil d, (corners[corner]?).isSome := fun corners member => by
    have reached := (cornered.of_mem_stencil member).1
    rw [List.getElem?_eq_getElem (Nat.lt_of_lt_of_le inside reached), Option.isSome_some]
  rw [atCorner, Field.size_gather, size, ← cornered.size_stencil other, ← Array.length_toList,
    Array.toList_filterMap, ← Array.length_toList, List.filterMap_length_eq_length]
  exact fun corners member => each corners (Array.mem_toList_iff.mp member)

theorem Resolution.size_view {found : Resolution α} {data : Field α} (cornered : r.mesh.Cornered)
    (resolved : r.resolve? name = some found)
    (covers : data.size = r.size found.source.1) : (found.view data).size = r.size found.domain := by
  unfold resolve? at resolved
  split at resolved
  · cases resolved
    exact covers
  · split at resolved
    next base side _ =>
      split at resolved
      · cases resolved
        exact size_atCorner cornered (by decide) (by cases side <;> decide) data
      · cases resolved
    next base i _ =>
      split at resolved
      · cases resolved
      next d elements =>
        split at resolved
        · cases resolved
        next inside =>
          dsimp only at resolved
          split at resolved
          · cases resolved
            exact (Field.size_gather ..).trans (cornered.of_elementEdgeMap elements).1
          · split at resolved
            · cases resolved
              refine size_atCorner cornered ?_ (Nat.lt_of_not_le inside) data
              rintro rfl
              cases Mesh.isElementEdge_of_elementDomain elements
            · cases resolved
    all_goals cases resolved

theorem Regular.inRange (regular : r.Regular) : r.InRange where
  stencil _ := regular.mesh.size_stencil
  corners _ _ := regular.mesh.of_mem_stencil
  edges _ := regular.mesh.of_elementEdgeMap
  values _ _ _ := regular.sized.size_of_read
  found name value ran := by
    cases resolved : r.resolve? name with
    | none =>
      rw [find_of_unresolved resolved] at ran
      cases ran
    | some found =>
      rw [find_of_resolved resolved] at ran
      cases read : (r.read found.source.1 found.source.2).1 with
      | error e =>
        rw [read] at ran
        cases ran
      | ok data =>
        rw [read] at ran
        cases ran
        exact Resolution.size_view regular.mesh resolved (regular.sized.size_of_read read)

omit [Scalar α] in
theorem Regular.fits (regular : r.Regular) (fits : Fits r r') : r'.Regular :=
  ⟨fits.mesh ▸ regular.mesh, fits.sized regular.sized⟩

theorem Regular.later (regular : r.Regular) (later : Owner.Later r r') : r'.Regular where
  mesh := by
    rw [show r'.mesh = r.mesh from eq_of_bare_eq (f := Region.mesh) (fun _ => rfl) later.progress.bare_eq]
    exact regular.mesh
  sized := later.sized regular.sized

end Region

namespace Coupled

variable {c c' : Coupled β α} {name : String}

/-- A name has one value for every pair if what is read has, also where nodes of a region are
gathered. -/
theorem size_of_lookupWith {read : String → CoupledRead β α (Field α)} {value : Resolved α}
    (covers : ∀ data, (read name c).1 = .ok data → data.size = c.junction.size)
    (ran : (lookupWith read name c).1 = .ok (some value)) : value.data.size = c.junction.size := by
  -- Whatever a lookup finds, it is a view of values that one read returned.
  have answer : ∀ (inner : CoupledRead β α (Field α)) (view : Field α → Resolved α),
      ((inner >>= fun data => pure (some (view data))) c).1 = .ok (some value) →
        ∃ data, (inner c).1 = .ok data ∧ view data = value := by
    intro inner view ran
    rcases inside : inner c with ⟨e | data, c'⟩
    · rw [CoupledRead.bind_of_error inside] at ran
      cases ran
    · rw [CoupledRead.bind_of_ok inside] at ran
      cases ran
      exact ⟨data, rfl, rfl⟩
  revert ran
  unfold lookupWith
  change ((if c.junction.models.contains .node name then _ else _ : CoupledRead β α _) c).1 = _ → _
  split
  · intro ran
    obtain ⟨data, inside, rfl⟩ := answer (read name) (⟨.node, ·⟩) ran
    exact covers data inside
  · rcases Suffix.split? name with _ | ⟨base, side | i | side⟩
    case some.interfaceSide =>
      dsimp only
      split
      · intro ran
        obtain ⟨data, -, rfl⟩ := answer (onRegion side (Region.read .node base))
          (fun values => ⟨.node, values.gather c.junction.chunking
            (c.junction.geometry.nodes side).toArray⟩) ran
        rw [Field.size_gather]
        exact List.size_toArray.trans (List.length_map _)
      · exact fun none => nomatch none
    all_goals exact fun none => nomatch none

theorem size_of_find {value : Resolved α} (sized : c.junction.Sized)
    (ran : (c.find name).1 = .ok (some value)) : value.data.size = c.junction.size :=
  (size_of_lookupWith (fun _ => size_of_readWithin (sized_refresh c sized)) ran).trans (size_refresh c)

def Joined (c : Coupled β α) : Prop := ∀ side, ∀ pair ∈ c.junction.geometry.pairs,
  Interface.nodeOf side pair < (c.region side).nodeCount

structure InRange (c : Coupled β α) : Prop where
  /-- The nodes of the pairs, of which values are gathered, are nodes of the regions. -/
  nodes : ∀ side, ∀ n ∈ c.junction.geometry.nodes side, n < (c.region side).nodeCount
  /-- So are the nodes of the pairs of a mask, each of which is a pair of the interface. -/
  pairs : ∀ mask start0 start1, ∀ p ∈ c.junction.geometry.pairRows mask start0 start1,
    p.index < c.junction.size ∧ ∀ side, p.node side < (c.region side).nodeCount
  /-- A read returns one value for every pair. -/
  values : ∀ name data, (c.read name).1 = .ok data → data.size = c.junction.size
  /-- So does a name, also where the values of nodes of a region are gathered. -/
  found : ∀ name value, (c.find name).1 = .ok (some value) → value.data.size = c.junction.size

theorem Joined.inRange (joined : c.Joined) (sized : c.junction.Sized) : c.InRange where
  nodes side n member := by
    obtain ⟨pair, inPairs, rfl⟩ := List.mem_map.mp member
    exact joined side pair inPairs
  pairs mask start0 start1 p member := by
    obtain ⟨⟨pair, index⟩, active, rfl⟩ := List.mem_map.mp member
    have here := List.mem_zipIdx_iff_getElem?.mp (List.mem_filter.mp active).1
    refine ⟨(List.getElem?_eq_some_iff.mp here).1, fun side => ?_⟩
    have inside := joined side pair (List.mem_of_getElem? here)
    cases side <;> exact inside
  values _ _ := size_of_read sized
  found _ _ := size_of_find sized

end Coupled

end FiniteVolume
