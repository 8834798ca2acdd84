import FiniteVolume.Proofs.Device.Bounds
import FiniteVolume.Proofs.Device.Cycle
import FiniteVolume.Proofs.Device.Shares

/-!
The extent of a system.

On meshes that constructors give, what a pass looks up by position exists (`Device.InRange`). After a
pass that succeeds, the rows of the regions are in bijection with places, the circuit nodes follow in
the order in which they were added (`Device.LaidOut`), and every record that was appended lies within
these rows and columns (`Device.records_lie_within_system`).
-/
namespace FiniteVolume

variable {β α : Type}

/-! ## Moved records -/

theorem RowMap.lt_of_mem_destinations {m : RowMap} {row row' count : Nat} (below : row < count)
    (targets : ∀ move target, m.get? row = some move → move.target? = some target → target < count)
    (lands : row' ∈ m.destinations row) : row' < count := by
  unfold destinations at lands
  cases found : m.get? row with
  | none =>
    rw [found] at lands
    obtain rfl := List.mem_singleton.mp lands
    exact below
  | some move =>
    rw [found] at lands
    cases move with
    | dropped => cases lands
    | moved target keepCopy =>
      rcases List.mem_cons.mp lands with rfl | stays
      · exact targets _ _ found rfl
      · cases keepCopy with
        | false => cases stays
        | true =>
          obtain rfl := List.mem_singleton.mp stays
          exact below

theorem Records.Below.permute {r : Records α} {moves : RowMap} {count : Nat} (below : r.Below count)
    (targets : ∀ row move target, moves.get? row = some move → move.target? = some target →
      target < count) : (r.permute moves).Below count where
  rows row member := by
    obtain ⟨row', isRow, lands⟩ := mem_rows_permute.mp member
    exact RowMap.lt_of_mem_destinations (below.rows row' isRow) (targets row') lands
  columns entry member := by
    obtain ⟨original, inMatrix, moved⟩ := List.mem_flatMap.mp member
    obtain ⟨row, -, rfl⟩ := List.mem_map.mp moved
    exact below.columns original inMatrix

variable [BaseScalar β]

namespace Device

variable {d d' : Device β α}

/-! ## Rows -/

/-- The rows are those of places, and after them those of the circuit nodes as they were added. -/
structure LaidOut (d : Device β α) (added : List String) : Prop where
  /-- Every place has a row of the regions. -/
  row : ∀ x, d.parts.IsPlace x → ∃ row < d.circuit.base, d.parts.row? x = some row
  /-- Every row of the regions is that of one place. -/
  place : ∀ row < d.circuit.base, ∃! x, d.parts.IsPlace x ∧ d.parts.row? x = some row
  /-- Circuit nodes take the rows that follow, one after the other. -/
  node : ∀ i name, added[i]? = some name → d.circuit.row? name = some (d.circuit.base + i)
  /-- There are no further rows. -/
  rowCount : d.rowCount = d.circuit.base + added.length

theorem Current.laidOut (current : d.Current) : d.LaidOut d.circuit.names.elems where
  row x place := by
    obtain ⟨row, found⟩ := place.exists_row?
    exact ⟨row, current.circuit ▸ current.numbered.row?_lt found place.inside, found⟩
  place row below := current.numbered.existsUnique_place (current.circuit ▸ below)
  node i name found := Circuit.row?_eq_some_iff.mpr ⟨i, found, rfl⟩
  rowCount := by
    rw [Device.rowCount, Circuit.names, Table.length_keys, Circuit.size]

/-- The claims in force move records within the rows of the regions. -/
theorem InForce.target_lt (inForce : d.InForce) (built : d.WellBuilt) {row target : Nat}
    {move : RowMove} (found : d.rows.get? row = some move) (moved : move.target? = some target) :
    target < d.rowCount := by
  obtain ⟨⟨_, -, _, -, _, -, -, -, r, region, -, below⟩, -⟩ :=
    inForce.moves built (RowMap.mem_entries_of_get? found) moved
  have rows := inForce.numbered.base_add_le region
  rw [rowCount, inForce.circuit]
  omega

theorem WellBuilt.joined_of_coupled (built : d.WellBuilt) {name : String} {c : Coupled β α}
    (found : d.parts.coupled? name = some c) : c.Joined := by
  intro side
  obtain ⟨junction, regions⟩ := Parts.coupled?_eq_some_iff.mp found
  obtain ⟨-, sides⟩ := built.joined name _ junction
  obtain ⟨r, region, inside⟩ := sides side
  cases region.symm.trans (regions side)
  exact inside

theorem Alike.rowCount_eq (alike : Alike d d') : d'.rowCount = d.rowCount := by
  have base : d'.circuit.base = d.circuit.base := congrArg (·.circuit.base) alike.bare
  have size : d'.circuit.size = d.circuit.size := by
    rw [Circuit.size, Circuit.size, ← Table.length_keys, ← Table.length_keys, alike.nodes]
  rw [rowCount, rowCount, base, size]

theorem InForce.bounded (inForce : d.InForce) (built : d.WellBuilt) (regular : d.parts.Regular) :
    d.parts.Bounded d.rowCount where
  regular := regular
  rows name r found := by
    have rows := inForce.numbered.base_add_le found
    rw [rowCount, inForce.circuit]
    omega
  joined _ _ := built.joined_of_coupled

/-! ## Positions -/

variable [Scalar α]

/-- What passes look up by position exists, in the parts as they are and as reads leave them. -/
structure InRange (d : Device β α) : Prop where
  regions : ∀ p, Owner.Later d.parts p → ∀ name r, p.regions.get? name = some r → r.InRange
  interfaces : ∀ p, Owner.Later d.parts p → ∀ name c, p.coupled? name = some c → c.InRange
  /-- The mask of a contact equation covers the nodes of its region. -/
  nodeMasks : ∀ x ∈ d.ownedNodes, ∀ r, d.parts.regions.get? x.1 = some r → x.2.2.size = r.nodeCount
  /-- The mask of an interface equation covers the pairs of its interface. -/
  pairMasks : ∀ x ∈ d.ownedPairs, ∀ j, d.parts.junctions.get? x.1 = some j → x.2.2.size = j.size

omit [Scalar α] in
theorem size_contactMask {region : String} {e : ContactEquation β} {r : Region β α}
    (found : d.parts.regions.get? region = some r) : (d.contactMask region e).size = r.nodeCount := by
  unfold contactMask
  rw [found]
  dsimp only
  split
  · exact Array.size_replicate
  · simp

omit [Scalar α] in
theorem size_interfaceMask {before : List (String × InterfaceEquation)} {name : String}
    {e : InterfaceEquation} {j : Junction β α} (found : d.parts.junctions.get? name = some j) :
    (d.interfaceMask before name e).size = j.size := by
  unfold interfaceMask
  rw [found]
  simp [Junction.size, Interface.size]

theorem WellBuilt.inRange (built : d.WellBuilt) (regular : d.parts.Regular) : d.InRange where
  regions p later name r found := ((regular.later later).regions name r found).inRange
  interfaces p later name c found := by
    obtain ⟨c', found', junction, regions⟩ := Parts.coupled?_of_bare_eq later.bare.symm found
    have sized := (regular.later later).junctions _ _ (Parts.coupled?_eq_some_iff.mp found).1
    have joined := (built.joined_of_coupled found').of_bare_eq junction.symm fun side =>
      (regions side).symm
    exact joined.inRange sized
  nodeMasks x member r found := by
    obtain ⟨⟨region, e⟩, -, rfl⟩ := List.mem_map.mp member
    exact size_contactMask found
  pairMasks x member j found := by
    obtain ⟨⟨⟨name, e⟩, i⟩, -, rfl⟩ := List.mem_map.mp member
    exact size_interfaceMask found

/-! ## Passes -/

variable {select : Selector} {time : TimeMode} {out out' : Records α}

theorem Coherent.inForce_of_assemble_eq_ok (coherent : d.Coherent)
    (ran : d.assemble select time out = (.ok (), d', out')) : d'.InForce := by
  have after := coherent.assemble select time out
  rw [ran] at after
  refine after.inForce ?_
  by_cases rows : select = .rows
  · rw [Device.assemble, if_pos rows] at ran
    have ready := d.ready_claimRows
    rcases claims : d.claimRows with ⟨result, d₁⟩
    rw [claims] at ran ready
    cases ran
    exact ready.mpr rfl
  · obtain ⟨stage, ran⟩ := assemble_eq_ok rows ran
    have alike : Alike d (d.numericPass select time out).2.1 := alike_numericPass rows d
    rw [ran] at alike
    exact alike.ready_iff.mpr stage

/-- A numeric pass with claims in force appends records below the number of rows. -/
theorem InForce.below_of_numericPass (inForce : d.InForce) (built : d.WellBuilt)
    (regular : d.parts.Regular) (numeric : select ≠ .rows)
    (ran : d.numericPass select time out = (.ok (), d', out')) :
    ∃ records, out' = out.append records ∧ records.Below d.rowCount := by
  have bounded := inForce.bounded built regular
  obtain ⟨s, boundary, appended⟩ := numericPass_eq_ok ran
  obtain ⟨s', bulk, bulkOut, -⟩ := bulkPass_eq_ok ran boundary
  obtain ⟨after, first⟩ :=
    (d.confined_boundaryPass numeric time (Nat.le_refl d.rowCount)).ran (d.passState out) bounded
  rw [boundary] at after first
  obtain ⟨-, second⟩ := (d.confined_bulkPass numeric time).ran
    { owner := s.owner, rows := s.rows, log := s.log } after
  rw [bulk] at second
  obtain ⟨records, boundaryOut, below⟩ := first rfl
  obtain ⟨moving, inBulk, below'⟩ := second rfl
  have moved : (d.bulkRecords select time out).Below d.rowCount := by
    rw [← bulkOut, inBulk]
    exact (Records.Below.empty _).append below'
  refine ⟨records.append (d.bulkShare select time out), ?_, below.append ?_⟩
  · rw [appended, boundaryOut, Records.append_assoc]
    rfl
  · rw [bulkShare_eq numeric]
    exact moved.permute fun _ _ _ => inForce.target_lt built

variable [Precision β α]

/-- On meshes that constructors give, whatever the calls: what a pass looks up by position exists. After
a pass that succeeds, rows below those of circuit nodes are in bijection with places, the circuit nodes
have the rows that follow in the order in which they were added, and the records that the pass appends
lie in rows and columns of the system. -/
theorem records_lie_within_system {name : String} {settings : Settings β} {d₀ : Device β α}
    (made : create name settings = .ok d₀) {changes : List (Change β α)}
    (meshed : ∀ change ∈ changes, change.Meshed)
    (ran : (d₀.after changes).assemble select time out = (.ok (), d', out')) :
    d'.LaidOut (OrderedSet.ofList (changes.filterMap Change.node?)).elems ∧
    (∃ records, out' = out.append records ∧ records.Below d'.rowCount) ∧
    (d₀.after changes).InRange ∧ d'.InRange := by
  have coherent := (coherent_create made).after changes
  have regular := regular_after (regular_create made).1 changes meshed
  have inForce := coherent.inForce_of_assemble_eq_ok ran
  -- The pass is one more call.
  have last : d' = d₀.after (changes ++ [.assemble select time out]) := by
    rw [after_concat, Change.apply, ran]
  have meshed' : ∀ change ∈ changes ++ [.assemble select time out], change.Meshed := fun change member =>
    (List.mem_append.mp member).elim (meshed change) fun here => List.mem_singleton.mp here ▸ trivial
  have names : d'.circuit.names = .ofList (changes.filterMap Change.node?) := by
    rw [last, names_after d₀, (regular_create made).2, List.filterMap_append,
      List.filterMap_cons_none rfl, List.filterMap_nil, List.append_nil]
    rfl
  have built' : d'.WellBuilt := last ▸ ((coherent_create made).after _).built
  have regular' : d'.parts.Regular := last ▸ regular_after (regular_create made).1 _ meshed'
  refine ⟨names ▸ inForce.current.laidOut, ?_, coherent.built.inRange regular, built'.inRange regular'⟩
  by_cases rows : select = .rows
  · rw [Device.assemble, if_pos rows] at ran
    have same : out = out' := congrArg (·.2.2) ran
    exact ⟨{}, by rw [Records.append_empty, same], .empty _⟩
  · obtain ⟨stage, ran⟩ := assemble_eq_ok rows ran
    have alike : Alike _ ((d₀.after changes).numericPass select time out).2.1 :=
      alike_numericPass rows _
    rw [ran] at alike
    rw [alike.rowCount_eq]
    exact (coherent.inForce stage).below_of_numericPass coherent.built regular rows ran

/-- A triangle meets a line at an interface, and a contact at the other end of the line has a circuit
node. The pass writes to the row and the column of the circuit node, behind those of the regions. -/
theorem records_lie_within_system_of_two_regions :
    let triangle : Mesh ℚ := ⟨.triangle, #[⟨0, 0, 0⟩, ⟨1, 0, 0⟩, ⟨0, 1, 0⟩],
      #[⟨1, 2⟩, ⟨0, 2⟩, ⟨0, 1⟩], #[⟨[0, 1, 2], [0, 1, 2]⟩]⟩
    let line : Mesh ℚ := ⟨.segment, #[⟨0, 0, 0⟩, ⟨1, 0, 0⟩], #[⟨0, 1⟩], #[]⟩
    let solve (region : String) (models : BulkModels) : Change ℚ ℚ :=
      .addEquation region { name := "e", variableName := "u", models }
    let set (region : String) (d : Domain) (names : List String) : List (Change ℚ ℚ) :=
      names.map fun name => .region region (.setUniform d name 1)
    let d₀ : Device ℚ ℚ := { name := "device", settings := {} }
    let calls : List (Change ℚ ℚ) :=
      [.addCircuitNode "anode" 0, .addRegion "left" triangle, .addRegion "right" line,
        solve "left" { element := "g" }, solve "right" { node := "f" }] ++
      set "left" .triangleEdge ["ElementEdgeCouple", "g", "g:u@en0", "g:u@en1", "g:u@en2"] ++
      set "right" .node ["NodeVolume", "f", "f:anode"] ++
      [.addInterface "middle" "left" "right" [(1, 0)], .interface "middle" (.setUniform "m" 1),
        .addInterfaceEquation "middle" { name := "i", name0 := "e", name1 := "e", model := "m" },
        .addContact "end" "right" [1], .addCircuitNode "cathode" 0,
        .addContactEquation ⟨"e", "end", { current := { node := "f" } }, "anode", 0, 0⟩,
        .addCircuitNode "anode" 1, .claimRows]
    ∃ d' out', (d₀.after calls).assemble .both .steady {} = (.ok (), d', out') ∧
      d'.LaidOut ["anode", "cathode"] ∧ d'.rowCount = 7 ∧ out'.Below 7 ∧
      (∃ entry ∈ out'.matrix, entry.row = 5 ∧ entry.column = 5) ∧ d'.InRange := by
  intro triangle line solve set d₀ calls
  have made : create "device" {} = .ok d₀ := create_of_valid (by decide +kernel)
  have meshed : ∀ change ∈ calls, change.Meshed := by
    have left : triangle.Built := .triangles triangle.points [[0, 1, 2]] (by simp) rfl
    have right : line.Built := .line [0, 1] rfl
    simp [calls, solve, set, Change.Meshed, left, right, or_imp, forall_and]
  have runs : ((d₀.after calls).assemble .both .steady {}).1.toBool = true := by decide +kernel
  have rows : ((d₀.after calls).assemble .both .steady {}).2.1.rowCount = 7 := by decide +kernel
  have circuit : ∃ entry ∈ ((d₀.after calls).assemble .both .steady {}).2.2.matrix,
      entry.row = 5 ∧ entry.column = 5 := by decide +kernel
  have added : (OrderedSet.ofList (calls.filterMap Change.node?)).elems = ["anode", "cathode"] := by
    decide +kernel
  clear_value calls
  obtain ⟨⟨⟩, ⟨d', out'⟩, ran⟩ := exists_eq_ok_of_toBool runs
  obtain ⟨laidOut, ⟨records, appended, below⟩, -, inRange⟩ := records_lie_within_system made meshed ran
  rw [ran] at rows circuit
  rw [added] at laidOut
  rw [rows] at below
  refine ⟨d', out', ran, laidOut, rows, ?_, circuit, inRange⟩
  rw [appended]
  exact (Records.Below.empty _).append below

end Device

end FiniteVolume
