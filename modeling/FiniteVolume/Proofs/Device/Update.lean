import FiniteVolume.Proofs.Circuit
import FiniteVolume.Proofs.Device.Current
import FiniteVolume.Proofs.Numeric.Exact

/-!
Which entries of a solution an update takes.

While the rows are numbered through, every variable takes the entries on the rows that are assigned to
its equation, and every circuit node the entry on its row (`Device.Current.update_eq`,
`Device.value?_update`). An update does not look at the layout: once a slot was moved and no call has
numbered the rows since, it may take other entries or refuse
(`Device.update_takes_other_rows_after_moved_slots`).
-/
namespace FiniteVolume.Device

variable {β α : Type} [BaseScalar β] [Scalar α] [Precision β α] {d d' : Device β α}

/-! ## Steps on assigned rows -/

omit [Scalar α] [Precision β α] in
/-- The rows that numbering anew would assign to an equation of a region. -/
def assignedRows? (d : Device β α) (region equation : String) : Option (List Nat) :=
  (d.renumber.parts.regions.get? region).bind (·.rows? equation)

omit [BaseScalar β] [Precision β α] in
def rawSteps (solution : Array α) (rows : List Nat) : Array α :=
  (rows.map fun row => solution[row]?.getD 0).toArray

/-- Update the variables of bulk equations by raw steps that are given equation by equation. Without
steps, a variable is kept. -/
def updateBy (settings : UpdateSettings β) (raw? : String → String → Option (Array α))
    (stats : UpdateStats β) : List (String × BulkEquation β) → Parts β α → Log →
      Except (UpdateError β) (UpdateStats β) × List (String × BulkEquation β) × Parts β α × Log
  | [], parts, log => (.ok stats, [], parts, log)
  | (region, e) :: rest, parts, log =>
    match parts.regions.get? region, raw? region e.name with
    | some r, some raw =>
      match e.update settings raw r log with
      | (.error fault, r, log) => (.error fault, (region, e) :: rest, parts.setRegion region r, log)
      | (.ok e, r, log) =>
        let (result, rest, parts, log) :=
          updateBy settings raw? (stats.max e.last) rest (parts.setRegion region r) log
        (result, (region, e) :: rest, parts, log)
    | _, _ =>
      let (result, rest, parts, log) := updateBy settings raw? stats rest parts log
      (result, (region, e) :: rest, parts, log)

/-- Update the device from the entries of a solution on the assigned rows. -/
def updateAssigned (d : Device β α) (solution : Array α) :
    Except (DeviceError β) (UpdateStats β) × Device β α :=
  let raw? region equation := (d.assignedRows? region equation).map (rawSteps solution)
  match updateBy d.settings.update raw? {} d.bulkEquations d.parts d.log with
  | (.error e, bulkEquations, parts, log) => (.error (.update e), { d with bulkEquations, parts, log })
  | (.ok stats, bulkEquations, parts, log) =>
    let d := { d with bulkEquations, parts, log }.updateCircuit solution
    match d.integrateContacts with
    | (.error e, d) => (.error e, d)
    | (.ok (), d) => (.ok stats, { d with lastUpdate := stats })

/-! ## What an update takes -/

omit [BaseScalar β] [Precision β α] in
theorem extract_eq_rawSteps {solution : Array α} {start size : Nat}
    (inside : start + size ≤ solution.size) : solution.extract start (start + size) =
      rawSteps solution ((List.range size).map (start + ·)) := by
  refine Array.ext (by simp [rawSteps]; omega) fun i low high => ?_
  have bound : start + i < solution.size := by
    rw [Array.size_extract] at low
    omega
  simp [rawSteps, bound]

section

omit [Scalar α] [Precision β α]

variable {region equation : String} {rows : List Nat}

theorem Current.assignedRows?_eq (current : d.Current) : d.assignedRows? region equation =
    (d.parts.regions.get? region).bind (·.rows? equation) := by
  rw [assignedRows?, current.renumber_eq]
  rfl

theorem Current.assignedRows?_of_bare_eq (current : d.Current) {parts : Parts β α}
    (same : parts.bare = d.parts.bare) :
    d.assignedRows? region equation = (parts.regions.get? region).bind (·.rows? equation) := by
  have look (p : Parts β α) : (p.regions.get? region).bind (·.rows? equation) =
      (p.bare.regions.get? region).bind (·.rows? equation) := by
    rw [Parts.get?_regions_bare]
    cases p.regions.get? region <;> rfl
  rw [current.assignedRows?_eq, look d.parts, look parts, same]

theorem Current.firstRow?_add_le (current : d.Current) {r : Region β α} {start : Nat}
    (found : d.parts.regions.get? region = some r) (slot : r.firstRow? equation = some start) :
    start + r.nodeCount ≤ d.circuit.base := by
  rw [current.circuit]
  exact (Region.firstRow?_add_le slot).2.trans (current.numbered.base_add_le found)

theorem Current.assigned_lt (current : d.Current) (assigned : d.assignedRows? region equation = some rows) :
    ∀ row ∈ rows, row < d.circuit.base := by
  rw [current.assignedRows?_eq] at assigned
  obtain ⟨r, found, rows?⟩ := Option.bind_eq_some_iff.mp assigned
  obtain ⟨start, slot, rfl⟩ := Option.map_eq_some_iff.mp rows?
  intro row member
  obtain ⟨node, inside, rfl⟩ := List.mem_map.mp member
  have last := current.firstRow?_add_le found slot
  rw [List.mem_range] at inside
  omega

end

/-- Through current numbers, each variable takes the entries on the rows assigned to its equation. -/
theorem Current.updateFrom_eq (current : d.Current) {solution : Array α} (settings : UpdateSettings β)
    (sized : d.circuit.base ≤ solution.size) (stats : UpdateStats β)
    (items : List (String × BulkEquation β)) {parts : Parts β α} (same : parts.bare = d.parts.bare)
    (log : Log) : updateFrom settings solution stats items parts log =
      Prod.map (Except.mapError .update) id (updateBy settings
        (fun region equation => (d.assignedRows? region equation).map (rawSteps solution)) stats items
        parts log) := by
  induction items generalizing stats parts log with
  | nil => rfl
  | cons x rest ih =>
    obtain ⟨region, e⟩ := x
    have assigned : d.assignedRows? region e.name = _ := current.assignedRows?_of_bare_eq same
    cases found : parts.regions.get? region with
    | none =>
      simp only [updateFrom, updateBy, found, ih stats same log]
      rfl
    | some r =>
      rw [found, Option.bind_some] at assigned
      cases slot : r.firstRow? e.name with
      | none =>
        rw [Region.rows?, slot] at assigned
        simp only [updateFrom, updateBy, found, slot, assigned, ih stats same log, Option.bind_eq_bind,
          Option.bind_some, Option.bind_none, Option.map_none]
        rfl
      | some start =>
        have current' : Current { d with parts } := current.of_bare_eq (bare_of_parts same)
        -- The rows lie before those of the circuit nodes, and so within the solution.
        have inside : start + r.nodeCount ≤ solution.size :=
          (current'.firstRow?_add_le found slot).trans sized
        have updated := e.bare_update settings (solution.extract start (start + r.nodeCount)) r log
        rw [Region.rows?, slot] at assigned
        simp only [updateFrom, updateBy, found, slot, assigned, Option.bind_eq_bind, Option.bind_some,
          Option.pure_def, Option.map_some, ← extract_eq_rawSteps inside, if_neg (Nat.not_lt.mpr inside)]
        rcases ran : e.update settings (solution.extract start (start + r.nodeCount)) r log with
          ⟨fault | e', r', log'⟩
        · rfl
        · rw [ran] at updated
          have stepped : (parts.setRegion region r').bare = d.parts.bare :=
            (Parts.bare_setRegion (by rw [found, Option.map_some, updated])).trans same
          simp only [ih _ stepped log']
          rfl

/-! ## Circuit nodes -/

omit [Scalar α] [Precision β α] in
theorem value?_setCircuitValue (d : Device β α) (name key : String) (value : β) :
    (d.setCircuitValue name value).circuit.value? key =
      (d.circuit.value? key).map fun old => if key = name then value else old := by
  unfold setCircuitValue
  split
  next registered =>
    refine (Table.get?_modify ..).trans ?_
    by_cases here : key = name <;> simp [here, Circuit.value?]
  next absent =>
    by_cases here : key = name
    · have missing : d.circuit.value? name = none := Option.not_isSome_iff_eq_none.mp absent
      rw [here, missing, Option.map_none]
    · simp [here]

omit [Scalar α] [Precision β α] in
theorem value?_foldl {items : List (String × Nat × β)} (distinct : (items.map (·.1)).Nodup)
    (f : Nat → β → β) (d : Device β α) (name : String) :
    (items.foldl (fun d x => d.setCircuitValue x.1 (f x.2.1 x.2.2)) d).circuit.value? name =
      (d.circuit.value? name).map fun old => ((items.lookup name).map fun x => f x.1 x.2).getD old := by
  induction items generalizing d with
  | nil => simp
  | cons x rest ih =>
    obtain ⟨key, row, value⟩ := x
    rw [List.map_cons, List.nodup_cons] at distinct
    rw [List.foldl_cons, ih distinct.2, value?_setCircuitValue, Option.map_map]
    refine congrArg (Option.map · _) (funext fun old => ?_)
    by_cases here : name = key
    · subst here
      have later : rest.lookup name = none := List.lookup_eq_none_iff.mpr fun y member => by
        have other : y.1 ≠ name := fun same => distinct.1 (List.mem_map.mpr ⟨y, member, same⟩)
        simpa using other.symm
      simp [later]
    · simp [List.lookup_cons, beq_eq_false_iff_ne.mpr here, here]

theorem value?_updateCircuit (d : Device β α) (solution : Array α) {name : String} {row : Nat} {value : β}
    (there : d.circuit.row? name = some row) (held : d.circuit.value? name = some value) :
    (d.updateCircuit solution).circuit.value? name =
      some (value + Precision.widen (solution[row]?.getD 0)) := by
  have distinct : (d.circuit.toList.map (·.1)).Nodup := by
    rw [Circuit.names_toList]
    exact d.circuit.nodes.nodup
  let nodes : Table String (Nat × β) := ⟨d.circuit.toList, distinct⟩
  have entry : d.circuit.toList.lookup name = some (row, value) :=
    (Table.get?_eq_some_iff (t := nodes)).mpr (Circuit.mem_toList_iff.mpr ⟨there, held⟩)
  have steps := value?_foldl distinct (fun row value => value + Precision.widen (solution[row]?.getD 0)) d name
  rw [entry, held] at steps
  exact steps

/-! ## Updates -/

/-- Through current numbers, an update takes the entries of the solution on the assigned rows. -/
theorem Current.update_eq (current : d.Current) {solution : Array α} (sized : solution.size = d.rowCount) :
    d.update solution = d.updateAssigned solution := by
  have enough : d.circuit.base ≤ solution.size := sized ▸ Nat.le_add_right ..
  rw [update, if_neg (not_not.mpr sized), updateAssigned,
    current.updateFrom_eq d.settings.update enough {} d.bulkEquations rfl d.log]
  dsimp only
  rcases updateBy d.settings.update
      (fun region equation => (d.assignedRows? region equation).map (rawSteps solution)) {}
      d.bulkEquations d.parts d.log with ⟨fault | stats, bulkEquations, parts, log⟩ <;> rfl

theorem value?_update {solution : Array α} {stats : UpdateStats β} (ran : d.update solution = (.ok stats, d'))
    {name : String} {row : Nat} {value : β} (there : d.circuit.row? name = some row)
    (held : d.circuit.value? name = some value) :
    d'.circuit.value? name = some (value + Precision.widen (solution[row]?.getD 0)) := by
  unfold update at ran
  split at ran
  · cases ran
  · split at ran
    · cases ran
    next bulkEquations parts log _ =>
      have moved := value?_updateCircuit { d with bulkEquations, parts, log } solution there held
      dsimp only at ran
      split at ran
      · cases ran
      next d₁ integrated =>
        have circuit : d₁.circuit = ({ d with bulkEquations, parts, log }.updateCircuit solution).circuit :=
          congrArg (·.2.circuit) integrated.symm
        cases ran
        rw [circuit]
        exact moved

/-- If every call that moves slots was followed by one that numbers the rows, an update stays within the
solution: it takes for every bulk equation the entries on the rows that are assigned to it, and for
every circuit node the entry on its row. -/
theorem update_takes_assigned_rows {name : String} {settings : Settings β} {d₀ : Device β α}
    (made : create name settings = .ok d₀) (changes : List (Change β α))
    (numbered : d₀.NumberedSince changes) (solution : Array α) :
    let d := d₀.after changes
    (solution.size ≠ d.rowCount →
      d.update solution = (.error (.update (.lengthMismatch d.rowCount solution.size)), d)) ∧
    (solution.size = d.rowCount →
      (∀ region equation rows, d.assignedRows? region equation = some rows →
        ∀ row ∈ rows, row < solution.size) ∧
      (∀ node row, d.renumber.circuit.row? node = some row → row < solution.size) ∧
      d.update solution = d.updateAssigned solution ∧
      ∀ stats d', d.update solution = (.ok stats, d') →
        ∀ node row value, d.renumber.circuit.row? node = some row → d.circuit.value? node = some value →
          d'.circuit.value? node = some (value + Precision.widen (solution[row]?.getD 0))) := by
  intro d
  have current : d.Current := (current_create made).after numbered
  refine ⟨fun wrong => by rw [update, if_pos wrong], fun sized => ?_⟩
  have circuit : d.renumber.circuit = d.idle.circuit := congrArg Device.circuit current.renumber_eq
  rw [circuit]
  refine ⟨fun region equation rows assigned row member => ?_, fun node row there => ?_,
    current.update_eq sized, fun stats d' ran node row value there held => value?_update ran there held⟩
  · have below := current.assigned_lt assigned row member
    rw [sized, rowCount]
    omega
  · have below := (Circuit.row?_bounds there).2
    rw [sized, rowCount]
    exact below

/-- A slot is taken away and another one given, and then the rows are claimed: the update takes entries 0
and 1 for the equation that is left. -/
theorem update_takes_assigned_rows_after_claims :
    let mesh : Mesh ℚ := ⟨.segment, #[⟨0, 0, 0⟩, ⟨1, 0, 0⟩], #[⟨0, 1⟩], #[]⟩
    let solve (region : String) : Change ℚ ℚ := .addEquation region { name := "e", variableName := "u" }
    let d₀ : Device ℚ ℚ := { name := "device", settings := {} }
    let calls : List (Change ℚ ℚ) := [.addRegion "left" mesh, .addRegion "right" mesh,
      solve "left", solve "right", .region "left" (.removeEquation "e"),
      .region "right" (.addEquation "f" "w")]
    let d := d₀.after (calls ++ [.claimRows])
    d₀.NumberedSince (calls ++ [.claimRows]) ∧ d.assignedRows? "right" "e" = some [0, 1] ∧
      d.update #[1, 2, 3, 4] = d.updateAssigned #[1, 2, 3, 4] := by
  intro mesh solve d₀ calls d
  have made : create "device" {} = .ok d₀ := create_of_valid (by decide +kernel)
  have numbered : d₀.NumberedSince (calls ++ [.claimRows]) := numberedSince_concat.mpr (.inl trivial)
  have sized : (#[1, 2, 3, 4] : Array ℚ).size = d.rowCount := by decide +kernel
  have rows : d.assignedRows? "right" "e" = some [0, 1] := by decide +kernel
  have takes := (update_takes_assigned_rows made _ numbered #[1, 2, 3, 4]).2 sized
  exact ⟨numbered, rows, takes.2.2.1⟩

/-- Without such a call, an update may succeed on the rows of another equation, or find no rows. -/
theorem update_takes_other_rows_after_moved_slots :
    let mesh : Mesh ℚ := ⟨.segment, #[⟨0, 0, 0⟩, ⟨1, 0, 0⟩], #[⟨0, 1⟩], #[]⟩
    let solve (region : String) : Change ℚ ℚ := .addEquation region { name := "e", variableName := "u" }
    let d : Device ℚ ℚ := after { name := "device", settings := {} }
      [.addRegion "left" mesh, .addRegion "right" mesh, solve "left", solve "right",
        .region "left" (.removeEquation "e"), .region "right" (.addEquation "f" "w")]
    let d' : Device ℚ ℚ := after { name := "device", settings := {} }
      [.addRegion "bulk" mesh, solve "bulk", .region "bulk" (.removeEquation "e"),
        .region "bulk" (.addEquation "f" "w"), .region "bulk" (.addEquation "e" "u")]
    let u (d : Device ℚ ℚ) := (d.parts.regions.get? "right").bind fun r =>
      (r.read .node "u").1.toOption.map Field.toArray
    d.Reached ∧ (d.update #[1, 2, 3, 4]).1.toBool = true ∧ u (d.update #[1, 2, 3, 4]).2 = some #[3, 4] ∧
      d.assignedRows? "right" "e" = some [0, 1] ∧ u (d.updateAssigned #[1, 2, 3, 4]).2 = some #[1, 2] ∧
      d'.Reached ∧ ((d'.update #[1, 2]).1.map fun _ => ()).mapError DeviceError.message =
        .error "equation \"e\" needs row 3, but the solution has 2 rows" := by
  intro mesh solve d d' u
  exact ⟨reached_after (by decide +kernel) _, by decide +kernel, by decide +kernel, by decide +kernel,
    by decide +kernel, reached_after (by decide +kernel) _, by decide +kernel⟩

end FiniteVolume.Device
