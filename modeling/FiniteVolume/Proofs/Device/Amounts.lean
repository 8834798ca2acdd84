import FiniteVolume.Proofs.Assembly.Amounts
import FiniteVolume.Proofs.Device.Shares

/-!
Amounts that a pass adds.

In exact arithmetic, a numeric pass adds to a row what the boundary equations append there and what the
bulk equations assemble on the sources of the row. These are none for a row that is taken over, the row
itself and the rows of region 1 that are paired with it where region 0 receives, and otherwise the row
alone (`Device.amounts_of_numeric_pass`).
-/
namespace FiniteVolume

variable {β α : Type}

/-! ## Sources -/

namespace RowMap

variable {m : RowMap} {row p : Nat}

theorem mem_sources_iff : p ∈ m.sources row ↔
    (p = row ∧ ∀ move, m.get? row = some move → move.keepsCopy = true) ∨
      ∃ move, m.get? p = some move ∧ move.target? = some row := by
  rw [mem_sources, destinations]
  by_cases same : p = row
  · subst same
    cases m.get? p with
    | none => simp
    | some move =>
      cases move with
      | dropped => simp [RowMove.destinations, RowMove.keepsCopy, RowMove.target?]
      | moved target keepCopy =>
        cases keepCopy <;> simp [RowMove.destinations, RowMove.keepsCopy, RowMove.target?, eq_comm (a := p)]
  · cases m.get? p with
    | none => simp [same, Ne.symm same]
    | some move =>
      cases move with
      | dropped => simp [RowMove.destinations, RowMove.target?, same]
      | moved target keepCopy =>
        cases keepCopy <;> simp [RowMove.destinations, RowMove.target?, same, Ne.symm same,
          eq_comm (a := row)]

theorem sources_eq_singleton (stays : ∀ move, m.get? row = some move → move.keepsCopy = true)
    (alone : ∀ p move, m.get? p = some move → move.target? ≠ some row) : m.sources row = {row} := by
  ext p
  rw [mem_sources_iff, Finset.mem_singleton]
  constructor
  · rintro (⟨same, -⟩ | ⟨move, found, moved⟩)
    · exact same
    · exact absurd moved (alone p move found)
  · exact fun same => .inl ⟨same, stays⟩

end RowMap

variable [BaseScalar β]

/-- The interface equation moves the row of one place of an active pair onto that of the other, and the
place is one of the two. -/
def Boundary.Couples (p : Parts β α) (x : Place) : Boundary β → Prop
  | contact .. => False
  | interface name e mask => e.coupling ≠ .flux ∧ ∃ j, p.junctions.get? name = some j ∧
      ∃ pair ∈ j.geometry.activePairs mask, ∃ side, x = e.placeAt j.geometry side pair

/-- The rows of region 1 at the active pairs with a node of region 0. -/
def pairedRows (p : Parts β α) (e : InterfaceEquation) (i : Interface) (mask : Array Bool)
    (node : Nat) : List Nat :=
  ((i.activePairs mask).filter (·.1 = node)).map fun pair => p.rowAt (e.placeAt i .second pair)

omit [BaseScalar β] in
theorem mem_pairedRows {p : Parts β α} {e : InterfaceEquation} {i : Interface} {mask : Array Bool}
    {node row : Nat} : row ∈ pairedRows p e i mask node ↔ ∃ pair ∈ i.activePairs mask, pair.1 = node ∧
      row = p.rowAt (e.placeAt i .second pair) := by
  simp [pairedRows, List.mem_filter, and_assoc, eq_comm (a := row)]

namespace Device

variable {τ : Type} {d : Device β α}

section

variable (inForce : d.InForce) (built : d.WellBuilt) {row : Nat} {b : Boundary β} {x : Place}

include inForce

theorem InForce.get?_eq_some_iff {p : Nat} {move : RowMove} : d.rows.get? p = some move ↔
    ∃ b ∈ d.boundaries, ∃ c ∈ b.claims d.parts, c.entry d.parts = (p, move) :=
  (RowMap.get?_eq_some_iff_of_claimAll inForce.claimed).trans mem_entries

include built

theorem InForce.get?_target {p target : Nat} {move : RowMove} (found : d.rows.get? p = some move)
    (moved : move.target? = some target) : d.rows.get? target = none :=
  (inForce.moves built (RowMap.mem_entries_of_get? found) moved).2

theorem InForce.nodup_destinations (p : Nat) : (d.rows.destinations p).Nodup :=
  RowMap.nodup_destinations fun _ _ found => inForce.get?_target built found rfl

theorem InForce.sources_of_takesOver (member : b ∈ d.boundaries) (takes : b.TakesOver d.parts x)
    (here : d.parts.row? x = some row) : d.rows.sources row = ∅ := by
  obtain ⟨move, found, keeps⟩ := inForce.get?_of_takesOver built member takes here
  refine Finset.eq_empty_of_forall_notMem fun p source => ?_
  exact RowMap.not_mem_destinations (fun _ _ _ found' moved => inForce.get?_target built found' moved)
    found keeps p (RowMap.mem_sources.mp source)

omit inForce built in
/-- A place that is claimed is taken over or coupled, and one that receives is coupled. -/
theorem takesOver_or_couples_of_mem_claims {p : Parts β α} {c : Claim} (isClaim : c ∈ b.claims p) :
    (b.TakesOver p c.place ∨ b.Couples p c.place) ∧ ∀ heir ∈ c.heir, b.Couples p heir.1 := by
  cases b with
  | contact region e mask =>
    obtain ⟨-, n, active, rfl⟩ := Boundary.mem_claims_contact.mp isClaim
    exact ⟨.inl ⟨rfl, rfl, active⟩, fun heir none => nomatch none⟩
  | interface name e mask =>
    obtain ⟨coupled, found, pair, keepCopy, kept, active, rfl⟩ := Boundary.mem_claims_interface.mp isClaim
    have junction := (Parts.coupled?_eq_some_iff.mp found).1
    have moves : e.coupling ≠ .flux := by
      intro flux
      rw [flux] at kept
      cases kept
    refine ⟨.inr ⟨moves, _, junction, pair, active, .second, rfl⟩, fun heir present => ?_⟩
    cases present
    exact ⟨moves, _, junction, pair, active, .first, rfl⟩

theorem InForce.sources_of_free (free : ∀ b ∈ d.boundaries, ∀ x, d.parts.row? x = some row →
    ¬b.TakesOver d.parts x ∧ ¬b.Couples d.parts x) : d.rows.sources row = {row} := by
  refine RowMap.sources_eq_singleton (fun move found => ?_) fun p move found moved => ?_
  · obtain ⟨b, member, c, isClaim, entry⟩ := inForce.get?_eq_some_iff.mp found
    have here := built.row?_eq_rowAt inForce.slotted member (Boundary.owns_of_mem_claims isClaim).1
    rw [show d.parts.rowAt c.place = row from (Prod.mk.inj entry).1] at here
    obtain ⟨noTake, noCouple⟩ := free b member _ here
    exact absurd (takesOver_or_couples_of_mem_claims isClaim).1 (not_or.mpr ⟨noTake, noCouple⟩)
  · obtain ⟨b, member, c, isClaim, entry⟩ := inForce.get?_eq_some_iff.mp found
    obtain ⟨rfl, rfl⟩ := Prod.mk.inj entry
    cases isHeir : c.heir with
    | none => simp [isHeir, RowMove.target?] at moved
    | some heir =>
      rw [isHeir] at moved
      have target : d.parts.rowAt heir.1 = row := Option.some.inj moved
      have here := built.row?_eq_rowAt inForce.slotted member
        ((Boundary.owns_of_mem_claims isClaim).2 heir isHeir)
      rw [target] at here
      exact (free b member _ here).2 ((takesOver_or_couples_of_mem_claims isClaim).2 heir isHeir)

section

variable {name : String} {e : InterfaceEquation} {mask : Array Bool} {j : Junction β α}
  (member : .interface name e mask ∈ d.boundaries) (junction : d.parts.junctions.get? name = some j)
  {pair : Nat × Nat} (active : pair ∈ j.geometry.activePairs mask)

include member junction active

theorem InForce.get?_second {keepCopy : Bool} (moves : e.coupling.keepsCopy? = some keepCopy) :
    d.rows.get? (d.parts.rowAt (e.placeAt j.geometry .second pair)) =
      some (.moved (d.parts.rowAt (e.placeAt j.geometry .first pair)) keepCopy) := by
  obtain ⟨coupled, found, rfl⟩ := built.coupled? junction
  exact inForce.get?_eq_some_iff.mpr ⟨_, member, _, Boundary.mem_claims_interface.mpr
    ⟨coupled, found, pair, keepCopy, moves, active, rfl⟩, rfl⟩

theorem InForce.sources_of_hybrid (hybrid : e.coupling = .hybrid) :
    d.rows.sources (d.parts.rowAt (e.placeAt j.geometry .second pair)) =
      {d.parts.rowAt (e.placeAt j.geometry .second pair)} := by
  have keeps : e.coupling.keepsCopy? = some true := by rw [hybrid, Coupling.keepsCopy?]
  have claimed := inForce.get?_second built member junction active keeps
  refine RowMap.sources_eq_singleton (fun move found => ?_) fun p move found moved => ?_
  · cases claimed.symm.trans found
    rfl
  · cases claimed.symm.trans (inForce.get?_target built found moved)

/-- What lands on the row of region 0 at an active pair: the rows of region 1 at all active pairs with this
node. -/
theorem InForce.get?_eq_some_and_target_first {p : Nat} (moves : e.coupling ≠ .flux) :
    (∃ move, d.rows.get? p = some move ∧
      move.target? = some (d.parts.rowAt (e.placeAt j.geometry .first pair))) ↔
      ∃ pair' ∈ j.geometry.activePairs mask, pair'.1 = pair.1 ∧
        p = d.parts.rowAt (e.placeAt j.geometry .second pair') := by
  obtain ⟨keepCopy, kept⟩ : ∃ keepCopy, e.coupling.keepsCopy? = some keepCopy := by
    cases kind : e.coupling with
    | continuous => exact ⟨false, rfl⟩
    | flux => exact absurd kind moves
    | hybrid => exact ⟨true, rfl⟩
  constructor
  · rintro ⟨move, found, moved⟩
    obtain ⟨b, member', c, isClaim, entry⟩ := inForce.get?_eq_some_iff.mp found
    obtain ⟨rfl, rfl⟩ := Prod.mk.inj entry
    cases isHeir : c.heir with
    | none => simp [isHeir, RowMove.target?] at moved
    | some heir =>
      rw [isHeir] at moved
      -- The place that receives is owned by one equation, so the claim is one of this equation.
      have target : d.parts.rowAt heir.1 = d.parts.rowAt (e.placeAt j.geometry .first pair) :=
        Option.some.inj moved
      have owns' := (Boundary.owns_of_mem_claims isClaim).2 heir isHeir
      have owns : Boundary.Owns d.parts (e.placeAt j.geometry .first pair) (.interface name e mask) :=
        ⟨j, junction, pair, active, .first, rfl⟩
      have place := built.eq_of_rowAt_eq inForce.numbered inForce.slotted member' member owns' owns target
      obtain rfl := built.owner_unique member' member owns' (place ▸ owns)
      obtain ⟨coupled, here, pair', keepCopy', -, active', rfl⟩ := Boundary.mem_claims_interface.mp isClaim
      cases junction.symm.trans (Parts.coupled?_eq_some_iff.mp here).1
      cases isHeir
      exact ⟨pair', active', congrArg Place.node place, rfl⟩
  · rintro ⟨pair', active', node, rfl⟩
    refine ⟨_, inForce.get?_second built member junction active' kept, ?_⟩
    rw [InterfaceEquation.placeAt, InterfaceEquation.placeAt]
    simp [RowMove.target?, Interface.nodeOf, node]

omit active in
theorem InForce.nodup_pairedRows (moves : e.coupling ≠ .flux) (node : Nat) :
    (pairedRows d.parts e j.geometry mask node).Nodup := by
  have distinct := (RowMap.claimAll_eq_ok_iff.mp ⟨_, inForce.claimed⟩).1
  have single : ¬(Boundary.interface name e mask).Doubled d.parts :=
    (built.nodup_entries inForce.numbered inForce.slotted).mp distinct _ member
  have nodes : ((j.geometry.activePairs mask).map Prod.snd).Nodup := by
    by_contra double
    refine single ⟨?_, j, junction, double⟩
    cases kind : e.coupling <;> simp [kind] at moves ⊢
  have some : (((j.geometry.activePairs mask).filter (·.1 = node)).map Prod.snd).Nodup :=
    nodes.sublist (List.filter_sublist.map _)
  refine List.Nodup.map_on (fun x inside y inside' same => ?_) some.of_map
  have owns (z) (inside : z ∈ (j.geometry.activePairs mask).filter (·.1 = node)) :
      Boundary.Owns d.parts (e.placeAt j.geometry .second z) (.interface name e mask) :=
    ⟨j, junction, z, (List.mem_filter.mp inside).1, .second, rfl⟩
  have place := built.eq_of_rowAt_eq inForce.numbered inForce.slotted member member (owns x inside)
    (owns y inside') same
  exact List.inj_on_of_nodup_map some inside inside' (congrArg Place.node place)

/-- The sources of the row of region 0 at an active pair: the row itself and the rows paired with it. -/
theorem InForce.sum_sources_first [AddCommMonoid τ] (moves : e.coupling ≠ .flux) (f : Nat → τ) :
    ∑ p ∈ d.rows.sources (d.parts.rowAt (e.placeAt j.geometry .first pair)), f p =
      f (d.parts.rowAt (e.placeAt j.geometry .first pair)) +
        ((pairedRows d.parts e j.geometry mask pair.1).map f).sum := by
  have lands (p) := inForce.get?_eq_some_and_target_first built member junction active (p := p) moves
  have paired : ∀ p, p ∈ pairedRows d.parts e j.geometry mask pair.1 ↔ _ := fun p =>
    mem_pairedRows.trans (lands p).symm
  have free : d.rows.get? (d.parts.rowAt (e.placeAt j.geometry .first pair)) = none := by
    obtain ⟨move, found, moved⟩ := (lands _).mpr ⟨pair, active, rfl, rfl⟩
    exact inForce.get?_target built found moved
  have sources : d.rows.sources (d.parts.rowAt (e.placeAt j.geometry .first pair)) =
      insert (d.parts.rowAt (e.placeAt j.geometry .first pair))
        (pairedRows d.parts e j.geometry mask pair.1).toFinset := by
    ext p
    rw [RowMap.mem_sources_iff, Finset.mem_insert, List.mem_toFinset, paired]
    simp [free]
  have apart : d.parts.rowAt (e.placeAt j.geometry .first pair) ∉
      (pairedRows d.parts e j.geometry mask pair.1).toFinset := by
    rw [List.mem_toFinset, paired]
    rintro ⟨move, found, -⟩
    cases free.symm.trans found
  rw [sources, Finset.sum_insert apart,
    List.sum_toFinset f (inForce.nodup_pairedRows built member junction moves _)]

end

end

variable [Scalar α] [ExactScalar α] {d' : Device β α} {select : Selector} {time : TimeMode}
  {out out' : Records α} (numeric : select ≠ .rows)

include numeric

/-- To every row a numeric pass adds what the boundary equations append and what the bulk equations
assemble on the sources of the row. A row that is taken over receives nothing of the latter. The row of
region 0 at an active pair of a continuous or hybrid equation receives its own and those of the rows of
region 1 that are paired with it, once each. The row of region 1 at an active pair of a hybrid equation, and
every row that is neither taken over nor coupled, receives its own. -/
theorem amounts_of_numeric_pass [Precision β α] (reached : d.Reached)
    (ran : d.assemble select time out = (.ok (), d', out')) (q : Records.Quantity) :
    let boundary := (Records.join (d.boundaryShares select time out)).amount q
    let bulk := (d.bulkRecords select time out).amount q
    ∃ added : Records α, out' = out.append added ∧
      (∀ row, added.amount q row = boundary row + ∑ p ∈ d.rows.sources row, bulk p) ∧
      (∀ row p, p ∈ d.rows.sources row ↔ row ∈ d.rows.destinations p) ∧
      (∀ b ∈ d.boundaries, ∀ x row, b.TakesOver d.parts x → d.parts.row? x = some row →
        added.amount q row = boundary row) ∧
      (∀ name e mask j, .interface name e mask ∈ d.boundaries → d.parts.junctions.get? name = some j →
        ∀ pair ∈ j.geometry.activePairs mask,
          (e.coupling ≠ .flux → ∀ row, d.parts.row? (e.placeAt j.geometry .first pair) = some row →
            (pairedRows d.parts e j.geometry mask pair.1).Nodup ∧ added.amount q row = boundary row +
              (bulk row + ((pairedRows d.parts e j.geometry mask pair.1).map bulk).sum)) ∧
          (e.coupling = .hybrid → ∀ row, d.parts.row? (e.placeAt j.geometry .second pair) = some row →
            added.amount q row = boundary row + bulk row)) ∧
      (∀ row, (∀ b ∈ d.boundaries, ∀ x, d.parts.row? x = some row →
          ¬b.TakesOver d.parts x ∧ ¬b.Couples d.parts x) →
        added.amount q row = boundary row + bulk row) := by
  intro boundary bulk
  obtain ⟨stage, ran⟩ := assemble_eq_ok numeric ran
  obtain ⟨s, inBoundary, appended⟩ := numericPass_eq_ok ran
  obtain ⟨out₁, -⟩ := owns_of_mem_boundaryShares numeric inBoundary
  have built := reached.coherent.built
  have inForce := reached.coherent.inForce stage
  have sums : ∀ row, ((Records.join (d.boundaryShares select time out)).append
      (d.bulkShare select time out)).amount q row = boundary row + ∑ p ∈ d.rows.sources row, bulk p := by
    intro row
    rw [Records.amount_append, bulkShare_eq numeric,
      Records.amount_permute (inForce.nodup_destinations built)]
  refine ⟨_, ?_, sums, fun row p => RowMap.mem_sources, ?_, ?_, ?_⟩
  · rw [appended, out₁, Records.append_assoc]
  · intro b member x row takes here
    rw [sums, inForce.sources_of_takesOver built member takes here, Finset.sum_empty, add_zero]
  · intro name e mask j member junction pair active
    have rowAt : ∀ {x row}, d.parts.row? x = some row → d.parts.rowAt x = row := fun here => by
      rw [Parts.rowAt, here, Option.getD_some]
    refine ⟨fun moves row here => ⟨inForce.nodup_pairedRows built member junction moves _, ?_⟩,
      fun hybrid row here => ?_⟩
    · rw [sums, ← rowAt here, inForce.sum_sources_first built member junction active moves]
    · rw [sums, ← rowAt here, inForce.sources_of_hybrid built member junction active hybrid,
        Finset.sum_singleton]
  · intro row free
    rw [sums, inForce.sources_of_free built free, Finset.sum_singleton]

omit numeric in
/-- Two regions that meet at an interface, where both nodes of the right one are paired with node 1 of the
left one: row 1 receives what is assembled on rows 1, 2 and 3, and row 2 nothing of it. -/
theorem amounts_of_numeric_pass_at_interface :
    let mesh : Mesh ℚ := ⟨.segment, #[⟨0, 0, 0⟩, ⟨1, 0, 0⟩], #[⟨0, 1⟩], #[]⟩
    let e : BulkEquation ℚ := { name := "e", variableName := "u", models := { node := "f" } }
    let d : Device ℚ ℚ := after { name := "device", settings := {} }
      [.addRegion "left" mesh, .addRegion "right" mesh,
        .region "left" (.setUniform .node "NodeVolume" 1),
        .region "right" (.setUniform .node "NodeVolume" 1), .region "left" (.setUniform .node "f" 2),
        .region "right" (.setUniform .node "f" 5),
        .addInterface "middle" "left" "right" [(1, 0), (1, 1)], .addEquation "left" e,
        .addEquation "right" e, .interface "middle" (.setUniform "m" 3),
        .addInterfaceEquation "middle" { name := "i", name0 := "e", name1 := "e", model := "m" },
        .claimRows]
    let boundary := (Records.join (d.boundaryShares .residual .steady {})).amount .residual
    let bulk := (d.bulkRecords .residual .steady {}).amount .residual
    ∃ d' out', d.assemble .residual .steady {} = (.ok (), d', out') ∧
      out'.amount .residual 1 = boundary 1 + (bulk 1 + (bulk 2 + bulk 3)) ∧
      out'.amount .residual 2 = boundary 2 ∧ (bulk 1, bulk 2, bulk 3) = (2, 5, 5) := by
  intro mesh e d boundary bulk
  have reached : d.Reached := reached_after (by decide +kernel) _
  have succeeds : (d.assemble .residual .steady {}).1.toBool = true := by decide +kernel
  have amounts : (bulk 1, bulk 2, bulk 3) = (2, 5, 5) := by decide +kernel
  let i : InterfaceEquation := { name := "i", name0 := "e", name1 := "e", model := "m" }
  have present : (d.parts.junctions.get? "middle").isSome = true := by decide +kernel
  have found : ∀ j ∈ d.parts.junctions.get? "middle",
      (1, 0) ∈ j.geometry.activePairs #[true, true] ∧
      d.parts.row? (i.placeAt j.geometry .first (1, 0)) = some 1 ∧
      d.parts.row? (i.placeAt j.geometry .second (1, 0)) = some 2 ∧
      pairedRows d.parts i j.geometry #[true, true] 1 = [2, 3] := by
    decide +kernel
  have owned : ("middle", i, #[true, true]) ∈ d.ownedPairs := by decide +kernel
  have member := mem_boundaries.mpr (.inr ⟨_, owned, rfl⟩)
  clear_value d
  obtain ⟨j, junction⟩ := Option.isSome_iff_exists.mp present
  obtain ⟨active, row1, row2, paired⟩ := found j junction
  obtain ⟨⟨⟩, ⟨d', out'⟩, ran⟩ := exists_eq_ok_of_toBool succeeds
  obtain ⟨added, rfl, -, -, taken, pairs, -⟩ :=
    amounts_of_numeric_pass (by decide) reached ran .residual
  obtain ⟨first, -⟩ := pairs _ i _ j member junction _ active
  refine ⟨d', _, ran, ?_, ?_, amounts⟩
  · have received := (first (by decide) 1 row1).2
    rw [paired] at received
    simpa [Records.empty_append] using received
  · rw [Records.empty_append]
    exact taken _ member _ 2 ⟨rfl, j, junction, _, active, rfl⟩ row2

end Device

end FiniteVolume
