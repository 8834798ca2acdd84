import Mathlib.Data.List.Pairwise
import FiniteVolume.Proofs.Numeric.Exact
import FiniteVolume.Proofs.Device.History

/-!
Which claims meet.

Claims of two boundary equations never do. So claiming the rows fails with a conflict if and only if
an interface equation moves one row twice, and a row that takes over is never claimed itself
(`Device.rowConflict_iff_and_moves_final`).
-/
namespace FiniteVolume

variable {β α : Type}

/-! ## Slots -/

def Parts.HasSlot (p : Parts β α) (region equation : String) : Prop :=
  ∃ r, p.regions.get? region = some r ∧ r.slots.contains equation = true

instance (p : Parts β α) (region equation : String) : Decidable (p.HasSlot region equation) :=
  decidable_of_iff ((p.regions.get? region).any (·.slots.contains equation) = true) (by
    rw [Option.any_eq_true]
    rfl)

theorem Parts.HasSlot.renumber {p : Parts β α} {region equation : String}
    (slot : p.HasSlot region equation) : p.renumber.HasSlot region equation := by
  obtain ⟨r, found, slot⟩ := slot
  refine ⟨{ r with base := p.rowsBefore region }, ?_, slot⟩
  rw [Parts.renumber, Table.get?_mapEntries, found, Option.map_some]

theorem Parts.HasSlot.isSome_firstRow? {p : Parts β α} {region equation : String} {r : Region β α}
    (slot : p.HasSlot region equation) (found : p.regions.get? region = some r) :
    (r.firstRow? equation).isSome = true := by
  obtain ⟨r', found', slot⟩ := slot
  cases found.symm.trans found'
  exact Region.isSome_firstRow?_iff.mpr slot

variable [BaseScalar β]

namespace Device

/-- The equations that boundary equations take part in have slots in their regions. -/
structure HasSlots (d : Device β α) : Prop where
  contacts : ∀ x ∈ d.contactEquations, d.parts.HasSlot x.1 x.2.name
  interfaces : ∀ x ∈ d.interfaceEquations, ∀ j, d.parts.junctions.get? x.1 = some j → ∀ side,
    d.parts.HasSlot (j.geometry.region side) (x.2.sideName side)

theorem HasSlots.prepared {d : Device β α} (slots : d.HasSlots) : d.prepared.HasSlots where
  contacts x member := (slots.contacts x member).renumber
  interfaces x member j found side := (slots.interfaces x member j found side).renumber

variable {d : Device β α}

theorem mem_boundaries {b : Boundary β} : b ∈ d.boundaries ↔
    (∃ x ∈ d.contactEquations, b = .contact x.1 x.2 (d.contactMask x.1 x.2)) ∨
      ∃ x ∈ d.ownedPairs, b = .interface x.1 x.2.1 x.2.2 := by
  rw [boundaries, List.mem_append, ownedNodes, List.map_map, List.mem_map, List.mem_map]
  simp only [eq_comm, Function.comp_apply]

theorem mem_ownedPairs {x : String × InterfaceEquation × Array Bool} (member : x ∈ d.ownedPairs) :
    (x.1, x.2.1) ∈ d.interfaceEquations ∧
      ∃ before, x.2.2 = d.interfaceMask before x.1 x.2.1 := by
  obtain ⟨⟨⟨name, e⟩, i⟩, inside, rfl⟩ := List.mem_map.mp member
  exact ⟨(List.mem_zipIdx_iff_getElem?.mp inside) |> List.mem_of_getElem?, _, rfl⟩

theorem HasSlots.slotted (slots : d.HasSlots) : ∀ b ∈ d.boundaries, b.Slotted d.parts := by
  intro b member
  rcases mem_boundaries.mp member with ⟨x, inside, rfl⟩ | ⟨x, inside, rfl⟩
  · exact fun r found => (slots.contacts x inside).isSome_firstRow? found
  · intro c found side
    obtain ⟨junction, regions⟩ := Parts.coupled?_eq_some_iff.mp found
    exact (slots.interfaces _ (mem_ownedPairs inside).1 _ junction side).isSome_firstRow? (regions side)

/-! ## Owned places -/

section

variable (built : d.WellBuilt) {b b' : Boundary β} {x y : Place}

include built

theorem WellBuilt.owner_unique (member : b ∈ d.boundaries) (member' : b' ∈ d.boundaries)
    (owns : b.Owns d.parts x) (owns' : b'.Owns d.parts x) : b = b' := by
  by_contra apart
  have : Std.Symm fun b b' : Boundary β => ∀ x, b.Owns d.parts x → ¬b'.Owns d.parts x :=
    ⟨fun b b' free y owns' owns => free y owns owns'⟩
  exact built.boundaries_apart.forall member member' apart x owns owns'

theorem WellBuilt.inside (member : b ∈ d.boundaries) (owns : b.Owns d.parts x) :
    d.parts.Inside x := by
  rcases mem_boundaries.mp member with ⟨y, -, rfl⟩ | ⟨y, inside, rfl⟩
  · obtain ⟨region, equation, active⟩ := owns
    obtain ⟨r, c, found, -, bound, -⟩ := isActive_contactMask.mp active
    exact ⟨r, region ▸ found, bound⟩
  · obtain ⟨j, found, pair, active, side, rfl⟩ := owns
    obtain ⟨-, before, mask⟩ := mem_ownedPairs inside
    rw [mask] at active
    obtain ⟨-, sides⟩ := built.joined _ j found
    obtain ⟨r, here, bounds⟩ := sides side
    exact ⟨r, here, bounds pair ((mem_activePairs_interfaceMask found).mp active).1⟩

theorem WellBuilt.coupled? {name : String} {j : Junction β α}
    (found : d.parts.junctions.get? name = some j) :
    ∃ c, d.parts.coupled? name = some c ∧ c.junction = j := by
  obtain ⟨-, sides⟩ := built.joined name j found
  obtain ⟨r0, first, -⟩ := sides .first
  obtain ⟨r1, second, -⟩ := sides .second
  refine ⟨⟨j, r0, r1⟩, Parts.coupled?_eq_some_iff.mpr ⟨found, fun side => ?_⟩, rfl⟩
  cases side <;> assumption

theorem WellBuilt.row?_eq_rowAt (slotted : ∀ b ∈ d.boundaries, b.Slotted d.parts)
    (member : b ∈ d.boundaries) (owns : b.Owns d.parts x) :
    d.parts.row? x = some (d.parts.rowAt x) := by
  have slots := slotted b member
  obtain ⟨row, here⟩ : ∃ row, d.parts.row? x = some row := by
    obtain ⟨r, found, -⟩ := built.inside member owns
    cases b with
    | contact region e mask =>
      obtain ⟨rfl, equation, -⟩ := owns
      obtain ⟨start, slot⟩ := Option.isSome_iff_exists.mp (slots r found)
      exact ⟨start + x.node, by rw [Parts.row?, found, equation]; simp [Region.row?_eq, slot]⟩
    | interface name e mask =>
      obtain ⟨j, junction, pair, -, side, rfl⟩ := owns
      obtain ⟨c, coupled, rfl⟩ := built.coupled? junction
      obtain ⟨start, slot⟩ := Option.isSome_iff_exists.mp (slots c coupled side)
      refine ⟨start + Interface.nodeOf side pair, ?_⟩
      simp [Parts.row?, InterfaceEquation.placeAt, (Parts.coupled?_eq_some_iff.mp coupled).2 side,
        Region.row?_eq, slot]
  rw [Parts.rowAt, here, Option.getD_some]

end

end Device

/-! ## Claimed places -/

namespace Boundary

variable {p : Parts β α} {b : Boundary β} {c : Claim}

theorem mem_activeIndices {mask : Array Bool} {n : Nat} :
    n ∈ activeIndices mask ↔ isActive mask n = true := by
  rw [activeIndices, List.mem_filter, List.mem_range]
  refine ⟨And.right, fun active => ⟨?_, active⟩⟩
  by_contra outside
  simp [isActive, Array.getElem?_eq_none (Nat.le_of_not_lt outside)] at active

theorem mem_claims_contact {region : String} {e : ContactEquation β} {mask : Array Bool} :
    c ∈ (contact region e mask).claims p ↔ (p.regions.get? region).isSome = true ∧
      ∃ n, isActive mask n = true ∧ c = ⟨⟨region, e.name, n⟩, none⟩ := by
  simp only [claims, List.mem_flatMap, Option.mem_toList, List.mem_map, mem_activeIndices,
    Option.isSome_iff_exists, exists_and_right, eq_comm (b := c)]

theorem mem_claims_interface {name : String} {e : InterfaceEquation} {mask : Array Bool} :
    c ∈ (interface name e mask).claims p ↔ ∃ coupled, p.coupled? name = some coupled ∧
      ∃ pair keepCopy, e.coupling.keepsCopy? = some keepCopy ∧
        pair ∈ coupled.junction.geometry.activePairs mask ∧
        c = ⟨e.placeAt coupled.junction.geometry .second pair,
          some (e.placeAt coupled.junction.geometry .first pair, keepCopy)⟩ := by
  simp only [claims, List.mem_flatMap, Option.mem_toList, List.mem_map]
  constructor
  · rintro ⟨coupled, found, keepCopy, kept, pair, active, rfl⟩
    exact ⟨coupled, found, pair, keepCopy, kept, active, rfl⟩
  · rintro ⟨coupled, found, pair, keepCopy, kept, active, rfl⟩
    exact ⟨coupled, found, keepCopy, kept, pair, active, rfl⟩

/-- An equation claims places that it owns, and lets other places that it owns take over. -/
theorem owns_of_mem_claims (member : c ∈ b.claims p) :
    b.Owns p c.place ∧ ∀ heir ∈ c.heir, b.Owns p heir.1 := by
  cases b with
  | contact region e mask =>
    obtain ⟨-, n, active, rfl⟩ := mem_claims_contact.mp member
    exact ⟨⟨rfl, rfl, active⟩, fun heir absent => nomatch absent⟩
  | interface name e mask =>
    obtain ⟨coupled, found, pair, keepCopy, -, active, rfl⟩ := mem_claims_interface.mp member
    have junction := (Parts.coupled?_eq_some_iff.mp found).1
    refine ⟨⟨_, junction, pair, active, .second, rfl⟩, fun heir present => ?_⟩
    cases present
    exact ⟨_, junction, pair, active, .first, rfl⟩

/-- The equation moves the row of a node of region 1 at two pairs. -/
def Doubled (p : Parts β α) : Boundary β → Prop
  | contact _ _ _ => False
  | interface name e mask => (e.coupling = .continuous ∨ e.coupling = .hybrid) ∧
      ∃ j, p.junctions.get? name = some j ∧
        ¬((j.geometry.activePairs mask).map Prod.snd).Nodup

/-- An equation claims a place twice if and only if it moves a row twice. -/
theorem nodup_places (coupled : ∀ name j, p.junctions.get? name = some j →
    ∃ c, p.coupled? name = some c ∧ c.junction = j) :
    ((b.claims p).map Claim.place).Nodup ↔ ¬b.Doubled p := by
  cases b with
  | contact region e mask =>
    refine iff_of_true ?_ id
    dsimp only [claims]
    cases p.regions.get? region with
    | none => exact List.nodup_nil
    | some r =>
      rw [Option.toList_some, List.flatMap_singleton, List.map_map]
      refine List.Nodup.map (fun n n' same => congrArg Place.node same) ?_
      exact List.nodup_range.filter _
  | interface name e mask =>
    have moves : e.coupling.keepsCopy?.isSome ↔ e.coupling = .continuous ∨ e.coupling = .hybrid := by
      cases e.coupling <;> simp [Coupling.keepsCopy?]
    dsimp only [claims, Doubled]
    rw [← moves]
    cases found : p.junctions.get? name with
    | none =>
      have missing : p.coupled? name = none := by rw [Parts.coupled?, found]; rfl
      simp [missing]
    | some j =>
      obtain ⟨c, here, rfl⟩ := coupled name j found
      rw [here]
      cases e.coupling.keepsCopy? with
      | none => simp
      | some keepCopy =>
        simp only [Option.toList_some, List.flatMap_singleton, List.map_map, Option.isSome_some,
          Option.some.injEq, exists_eq_left', true_and, Decidable.not_not]
        -- The places are told apart by their nodes of region 1.
        have places : ∀ pairs : List (Nat × Nat), (pairs.map fun pair =>
            e.placeAt c.junction.geometry .second pair) =
              (pairs.map Prod.snd).map fun n =>
                ⟨c.junction.geometry.region1, e.name1, n⟩ := fun pairs => (List.map_map ..).symm
        refine (iff_of_eq (congrArg List.Nodup (places _))).trans ⟨List.Nodup.of_map _, ?_⟩
        exact List.Nodup.map fun n n' same => congrArg Place.node same

end Boundary

namespace Device

variable {d : Device β α}

section

variable (built : d.WellBuilt) (numbered : d.parts.Numbered)
  (slotted : ∀ b ∈ d.boundaries, b.Slotted d.parts)

include built numbered slotted

theorem WellBuilt.eq_of_rowAt_eq {b b' : Boundary β} {x y : Place} (member : b ∈ d.boundaries)
    (member' : b' ∈ d.boundaries) (owns : b.Owns d.parts x) (owns' : b'.Owns d.parts y)
    (same : d.parts.rowAt x = d.parts.rowAt y) : x = y :=
  numbered.row?_injective (built.row?_eq_rowAt slotted member owns)
    (same ▸ built.row?_eq_rowAt slotted member' owns') (built.inside member owns)
    (built.inside member' owns')

/-- Claims meet if and only if an equation moves a row twice. -/
theorem WellBuilt.nodup_entries : (d.entries.map Prod.fst).Nodup ↔
    ∀ b ∈ d.boundaries, ¬b.Doubled d.parts := by
  have rows : d.entries.map Prod.fst = d.boundaries.flatMap fun b =>
      ((b.claims d.parts).map Claim.place).map d.parts.rowAt := by
    simp only [entries, List.map_flatMap, List.map_map]
    rfl
  have apart : d.boundaries.Pairwise (Function.onFun List.Disjoint fun b =>
      ((b.claims d.parts).map Claim.place).map d.parts.rowAt) := by
    refine built.boundaries_apart.imp_of_mem ?_
    intro b b' member member' free row inFirst inSecond
    obtain ⟨x, claimed, rfl⟩ := List.mem_map.mp inFirst
    obtain ⟨y, claimed', same⟩ := List.mem_map.mp inSecond
    obtain ⟨c, isClaim, rfl⟩ := List.mem_map.mp claimed
    obtain ⟨c', isClaim', rfl⟩ := List.mem_map.mp claimed'
    have owns := (Boundary.owns_of_mem_claims isClaim).1
    have owns' := (Boundary.owns_of_mem_claims isClaim').1
    have equal := built.eq_of_rowAt_eq numbered slotted member member' owns owns' same.symm
    exact free _ owns (equal ▸ owns')
  rw [rows, List.nodup_flatMap, and_iff_left apart]
  refine forall₂_congr fun b member => ?_
  rw [← Boundary.nodup_places fun name j => built.coupled?]
  refine ⟨List.Nodup.of_map _, List.Nodup.map_on ?_⟩
  intro x claimed y claimed' same
  obtain ⟨c, isClaim, rfl⟩ := List.mem_map.mp claimed
  obtain ⟨c', isClaim', rfl⟩ := List.mem_map.mp claimed'
  exact built.eq_of_rowAt_eq numbered slotted member member (Boundary.owns_of_mem_claims isClaim).1
    (Boundary.owns_of_mem_claims isClaim').1 same

omit built numbered slotted in
theorem mem_entries {x : Nat × RowMove} :
    x ∈ d.entries ↔ ∃ b ∈ d.boundaries, ∃ c ∈ b.claims d.parts, c.entry d.parts = x := by
  simp only [entries, List.mem_flatMap, List.mem_map]

/-- A place that takes over is not claimed. -/
theorem WellBuilt.unclaimed_heir {b : Boundary β} {c : Claim} {heir : Place × Bool} {rows : RowMap}
    (claimed : RowMap.claimAll d.entries ∅ = .ok rows) (member : b ∈ d.boundaries)
    (isClaim : c ∈ b.claims d.parts) (isHeir : heir ∈ c.heir) :
    rows.get? (d.parts.rowAt heir.1) = none := by
  by_contra present
  obtain ⟨move, found⟩ := Option.ne_none_iff_exists'.mp present
  obtain ⟨b', member', c', isClaim', entry⟩ :=
    mem_entries.mp ((RowMap.get?_eq_some_iff_of_claimAll claimed).mp found)
  have owns := (Boundary.owns_of_mem_claims isClaim).2 heir isHeir
  have owns' := (Boundary.owns_of_mem_claims isClaim').1
  have same : c'.place = heir.1 :=
    built.eq_of_rowAt_eq numbered slotted member' member owns' owns (Prod.mk.inj entry).1
  obtain rfl := built.owner_unique member' member owns' (same ▸ owns)
  -- Claims are on region 1 and heirs on region 0, which are two regions.
  cases b' with
  | contact region e mask =>
    obtain ⟨-, n, -, rfl⟩ := Boundary.mem_claims_contact.mp isClaim
    cases isHeir
  | interface name e mask =>
    obtain ⟨coupled, here, pair, keepCopy, -, -, rfl⟩ := Boundary.mem_claims_interface.mp isClaim
    obtain ⟨coupled', here', pair', keepCopy', -, -, rfl⟩ := Boundary.mem_claims_interface.mp isClaim'
    cases here.symm.trans here'
    cases isHeir
    have junction := (Parts.coupled?_eq_some_iff.mp here).1
    exact (built.joined name _ junction).1 (congrArg Place.region same).symm

end

/-- A continuous or hybrid interface equation has two active pairs with one node of region 1. -/
def DoublePair (d : Device β α) : Prop :=
  ∃ x ∈ d.ownedPairs, (x.2.1.coupling = .continuous ∨ x.2.1.coupling = .hybrid) ∧
    ∃ j, d.parts.junctions.get? x.1 = some j ∧
      ¬((j.geometry.activePairs x.2.2).map Prod.snd).Nodup

instance (d : Device β α) : Decidable d.DoublePair :=
  decidable_of_iff (∃ x ∈ d.ownedPairs, (x.2.1.coupling = .continuous ∨ x.2.1.coupling = .hybrid) ∧
    (d.parts.junctions.get? x.1).any
      (fun j => ¬((j.geometry.activePairs x.2.2).map Prod.snd).Nodup) = true) (by
    simp only [Option.any_eq_true, DoublePair, decide_eq_true_eq])

theorem doublePair_iff : d.DoublePair ↔ ∃ b ∈ d.boundaries, b.Doubled d.parts := by
  constructor
  · rintro ⟨x, member, doubled⟩
    exact ⟨_, mem_boundaries.mpr (.inr ⟨x, member, rfl⟩), doubled⟩
  · rintro ⟨b, member, doubled⟩
    rcases mem_boundaries.mp member with ⟨x, -, rfl⟩ | ⟨x, inside, rfl⟩
    · exact doubled.elim
    · exact ⟨x, inside, doubled⟩

theorem ownedPairs_prepared (d : Device β α) : d.prepared.ownedPairs = d.ownedPairs := by
  rw [← ownedPairs_outline, outline_prepared, ownedPairs_outline]

theorem doublePair_prepared : d.prepared.DoublePair ↔ d.DoublePair := by
  rw [DoublePair, ownedPairs_prepared]
  rfl

variable [Scalar α] [Precision β α]

omit [Scalar α] [Precision β α] in
/-- Of claims in force, a row of region 1 moves to the row of region 0 at the same pair, which is not
claimed itself. -/
theorem InForce.moves (inForce : d.InForce) (built : d.WellBuilt) {row target : Nat} {move : RowMove}
    (member : (row, move) ∈ d.rows.entries) (moved : move.target? = some target) :
    (∃ x ∈ d.ownedPairs, ∃ j, d.parts.junctions.get? x.1 = some j ∧
      ∃ pair ∈ j.geometry.activePairs x.2.2,
        d.parts.row? (x.2.1.placeAt j.geometry .second pair) = some row ∧
        d.parts.row? (x.2.1.placeAt j.geometry .first pair) = some target ∧
        ∃ r, d.parts.regions.get? j.geometry.region0 = some r ∧
          r.base ≤ target ∧ target < r.base + r.rowCount) ∧ d.rows.get? target = none := by
  have isEntry := (RowMap.mem_entries_of_claimAll inForce.claimed).mp member
  obtain ⟨b, isBoundary, c, isClaim, entry⟩ :=
    mem_entries.mp (isEntry.resolve_right (List.not_mem_nil (a := (row, move))))
  obtain ⟨rfl, rfl⟩ := Prod.mk.inj entry
  have owns := Boundary.owns_of_mem_claims isClaim
  cases heir : c.heir with
  | none =>
    rw [heir] at moved
    cases moved
  | some heir' =>
    obtain rfl : d.parts.rowAt heir'.1 = target := by
      rw [heir] at moved
      exact Option.some.inj moved
    refine ⟨?_, built.unclaimed_heir inForce.numbered inForce.slotted inForce.claimed isBoundary
      isClaim heir⟩
    have claimed := built.row?_eq_rowAt inForce.slotted isBoundary owns.1
    have takesOver := built.row?_eq_rowAt inForce.slotted isBoundary (owns.2 heir' heir)
    have inside := built.inside isBoundary (owns.2 heir' heir)
    rcases mem_boundaries.mp isBoundary with ⟨x, -, rfl⟩ | ⟨x, isPair, rfl⟩
    · obtain ⟨-, n, -, rfl⟩ := Boundary.mem_claims_contact.mp isClaim
      cases heir
    · obtain ⟨coupled, found, pair, keepCopy, -, active, rfl⟩ := Boundary.mem_claims_interface.mp isClaim
      cases heir
      obtain ⟨r, region, here⟩ := Parts.exists_of_row? takesOver
      have junction := (Parts.coupled?_eq_some_iff.mp found).1
      exact ⟨x, isPair, _, junction, pair, active, claimed, takesOver, r, region,
        Region.row?_bounds here (inside.lt region)⟩

omit [Precision β α] in
/-- Claiming fails with a conflict if and only if there is a double pair, and for no other reason. -/
theorem claimRows_cases (built : d.WellBuilt) (slots : d.HasSlots) :
    (d.DoublePair ∧ ∃ conflict, d.claimRows.1 = .error (.assembly (.rowConflict conflict))) ∨
    (¬d.DoublePair ∧ ∃ rows log, d.claimRows = (.ok (), { d.prepared with
      rows, log, stage := .claimed d.prepared.layout }) ∧ { d.prepared with rows }.InForce) := by
  have built' : d.prepared.WellBuilt := built.of_outline_eq d.outline_prepared
  have slotted := slots.prepared.slotted
  have claimed := claimed_claimPass slotted
  have meets : (∃ conflict, _) ↔ ¬(d.prepared.entries.map Prod.fst).Nodup := claimed.conflict_iff
  have doubled : ¬(d.prepared.entries.map Prod.fst).Nodup ↔ d.DoublePair := by
    rw [built'.nodup_entries d.parts.numbered_renumber slotted, ← doublePair_prepared, doublePair_iff]
    simp only [not_forall, not_not, exists_prop]
  rw [doubled] at meets
  rcases ran : d.claimPass with ⟨e | ⟨⟩, s⟩
  all_goals rw [ran] at meets claimed
  · by_cases double : d.DoublePair
    · obtain ⟨conflict, same⟩ := meets.mpr double
      cases same
      obtain ⟨log, failed⟩ := claimRows_of_error ran
      exact .inl ⟨double, conflict, congrArg Prod.fst failed⟩
    · cases claimed.eq_ok (mt meets.mp double)
  · refine .inr ⟨fun double => ?_, s.rows, s.log, claimRows_of_ok ran, inForce_prepared ran⟩
    obtain ⟨conflict, same⟩ := meets.mpr double
    cases same

/-- Where all boundary equations have slots, claiming the rows fails with a conflict if and only if
there is a double pair. Otherwise it succeeds, rows of region 1 move to the rows of region 0 at the
same pair, and those rows are not claimed: a row that has moved moves no further. -/
theorem rowConflict_iff_and_moves_final (reached : d.Reached) (slots : d.HasSlots) :
    ((∃ conflict, d.claimRows.1 = .error (.assembly (.rowConflict conflict))) ↔ d.DoublePair) ∧
    (¬d.DoublePair → d.claimRows.1 = .ok () ∧
      ∀ row move target, (row, move) ∈ d.claimRows.2.rows.entries → move.target? = some target →
        (∃ x ∈ d.ownedPairs, ∃ j, d.parts.junctions.get? x.1 = some j ∧
          ∃ pair ∈ j.geometry.activePairs x.2.2,
            d.claimRows.2.parts.row? (x.2.1.placeAt j.geometry .second pair) = some row ∧
            d.claimRows.2.parts.row? (x.2.1.placeAt j.geometry .first pair) = some target ∧
            ∃ r, d.claimRows.2.parts.regions.get? j.geometry.region0 = some r ∧
              r.base ≤ target ∧ target < r.base + r.rowCount) ∧
        d.claimRows.2.rows.get? target = none ∧
        d.claimRows.2.rows.destinations target = [target]) := by
  have built := reached.coherent.built
  rcases claimRows_cases built slots with ⟨double, conflict⟩ | ⟨single, rows, log, ran, inForce⟩
  · exact ⟨iff_of_true conflict double, fun single => absurd double single⟩
  rw [ran]
  refine ⟨iff_of_false (fun ⟨conflict, failed⟩ => nomatch failed) single, fun _ => ⟨rfl, ?_⟩⟩
  intro row move target member moved
  have built' : { d.prepared with rows }.WellBuilt := built.of_outline_eq d.outline_prepared
  have pairs : { d.prepared with rows }.ownedPairs = d.ownedPairs := d.ownedPairs_prepared
  obtain ⟨lands, free⟩ := inForce.moves built' member moved
  rw [pairs] at lands
  refine ⟨lands, free, ?_⟩
  rw [RowMap.destinations, show (RowMap.get? _ target) = none from free]

/-- Two regions that meet at an interface, with a contact on one of its nodes: the pair at the contact is
left out. Of the others, two with one node of region 1 conflict, and one alone moves its row. -/
theorem rowConflict_of_shared_node_and_move_of_single :
    let mesh : Mesh ℚ := ⟨.segment, #[⟨0, 0, 0⟩, ⟨1, 0, 0⟩], #[⟨0, 1⟩], #[]⟩
    let joined (pairs : List (Nat × Nat)) : Device ℚ ℚ := after { name := "device", settings := {} }
      [.addRegion "left" mesh, .addRegion "right" mesh, .addContact "end" "right" [1],
        .addInterface "middle" "left" "right" pairs, .region "left" (.addEquation "e0" "u"),
        .region "right" (.addEquation "e1" "v"), .addContactEquation { name := "e1", contact := "end" },
        .addInterfaceEquation "middle" { name := "e", name0 := "e0", name1 := "e1", model := "m" }]
    (∃ conflict, (joined [(0, 0), (1, 0), (0, 1)]).claimRows.1 =
      .error (.assembly (.rowConflict conflict))) ∧
    (joined [(1, 0), (0, 1)]).claimRows.1 = .ok () ∧
    (2, .moved 1 false) ∈ (joined [(1, 0), (0, 1)]).claimRows.2.rows.entries ∧
    (joined [(1, 0), (0, 1)]).claimRows.2.rows.destinations 1 = [1] := by
  intro mesh joined
  have reached : ∀ pairs, (joined pairs).Reached := fun pairs => reached_after (by decide +kernel) _
  have slots : ∀ pairs ∈ [[(0, 0), (1, 0), (0, 1)], [(1, 0), (0, 1)]], (joined pairs).HasSlots := by
    have contacts : ∀ pairs ∈ [[(0, 0), (1, 0), (0, 1)], [(1, 0), (0, 1)]],
        ∀ x ∈ (joined pairs).contactEquations, (joined pairs).parts.HasSlot x.1 x.2.name := by
      decide +kernel
    have sides : ∀ pairs ∈ [[(0, 0), (1, 0), (0, 1)], [(1, 0), (0, 1)]],
        ∀ x ∈ (joined pairs).interfaceEquations, ∀ j ∈ (joined pairs).parts.junctions.get? x.1,
          ∀ side ∈ Side.both,
            (joined pairs).parts.HasSlot (j.geometry.region side) (x.2.sideName side) := by
      decide +kernel
    exact fun pairs member => ⟨contacts pairs member, fun x inside j found side =>
      sides pairs member x inside j found side side.mem_both⟩
  have double : (joined [(0, 0), (1, 0), (0, 1)]).DoublePair := by decide +kernel
  have single : ¬(joined [(1, 0), (0, 1)]).DoublePair := by decide +kernel
  have member : (2, .moved 1 false) ∈ (joined [(1, 0), (0, 1)]).claimRows.2.rows.entries := by
    decide +kernel
  obtain ⟨conflict, -⟩ := rowConflict_iff_and_moves_final (reached _) (slots _ (.head _))
  obtain ⟨-, moves⟩ := rowConflict_iff_and_moves_final (reached _) (slots _ (.tail _ (.head _)))
  obtain ⟨claimed, final⟩ := moves single
  exact ⟨conflict.mpr double, claimed, member, (final _ _ _ member rfl).2.2⟩

end Device

end FiniteVolume
