import FiniteVolume.Proofs.Assembly.Columns
import FiniteVolume.Proofs.Device.Regular

/-!
Bounds on the records of equations.

Where the regions have their rows below a bound, and circuit nodes theirs, every equation writes to rows
and columns below it (`BulkEquation.writes_below`, `ContactEquation.writes_below`,
`InterfaceEquation.writes_below`). `Pass.Confined` says the same of a step over all parts of a device, and
it is kept from step to step over a pass (`Device.confined_boundaryPass`, `Device.confined_bulkPass`).
-/
namespace FiniteVolume

variable {β α : Type} [BaseScalar β] [Scalar α] {mask : Array Bool} {settings : Settings β}
  {select : Selector} {time : TimeMode} {count : Nat}

/-! ## One equation -/

section

variable {r : Region β α} {circuit : Option CircuitColumn} {measures : MeasureNames}
  {terms : List (Rows × Integrand)}

omit [BaseScalar β] in
/-- Terms whose rows are those of the region or of the circuit node stay within the bound. -/
theorem Integrand.below_assembled (regular : r.Regular) (rows : r.base + r.rowCount ≤ count)
    (column : ∀ c ∈ circuit, c.column < count) (onRows : ∀ term ∈ terms, ∀ n < r.nodeCount, ∀ row,
      term.1.row? n = some row → r.Reaches circuit row) :
    (assembled measures circuit select terms r).Below count where
  rows row member := by
    obtain ⟨term, inTerms, n, inside, landed⟩ := exists_node_of_mem_assembled member
      regular.mesh.toWellFormed fun d name => regular.sized.size_values_le d name
    exact (onRows term inTerms n inside row landed).lt rows column
  columns entry member :=
    (reaches_of_mem_assembled regular.mesh regular.sized member).lt rows column

end

theorem BulkEquation.writes_below (e : BulkEquation β) (count : Nat) (numeric : select ≠ .rows) :
    (e.assemble settings select time : RegionPass β α Unit).Writes fun _ r records =>
      r.Regular → r.base + r.rowCount ≤ count → records.Below count := by
  refine (e.writes_assemble numeric).mono ?_
  rintro _ r _ ⟨start, slot, rfl⟩ regular rows
  refine Integrand.below_assembled regular rows (fun _ absent => nomatch absent) ?_
  intro term inTerms n inside row landed
  obtain ⟨i, -, rfl⟩ := List.mem_map.mp inTerms
  cases landed
  exact .inl ⟨e.name, n, inside, by rw [Region.row?_eq, slot, Option.map_some]⟩

theorem ContactEquation.writes_below (e : ContactEquation β) {circuit : Circuit β} (count : Nat)
    (numeric : select ≠ .rows) :
    (e.assemble mask circuit settings select time : RegionPass β α Unit).Writes fun _ r records =>
      r.Regular → r.base + r.rowCount ≤ count → circuit.base + circuit.size ≤ count →
        records.Below count := by
  refine (e.writes_assemble numeric).mono ?_
  rintro _ r _ ⟨start, slot, rfl⟩ regular rows circuitRows
  refine Integrand.below_assembled regular rows (fun c column => ?_) ?_
  · obtain ⟨node, -, found⟩ := Option.bind_eq_some_iff.mp column
    obtain ⟨row, here, rfl⟩ := Option.map_eq_some_iff.mp found
    exact Nat.lt_of_lt_of_le (Circuit.row?_bounds here).2 circuitRows
  · intro term inTerms n inside row landed
    rcases List.mem_append.mp inTerms with onContact | onCircuit
    · obtain ⟨i, -, rfl⟩ := List.mem_map.mp onContact
      obtain ⟨-, rfl⟩ : isActive mask n = true ∧ start + n = row := by simpa [Rows.row?] using landed
      exact .inl ⟨e.name, n, inside, by rw [Region.row?_eq, slot, Option.map_some]⟩
    · obtain ⟨c, column, inModels⟩ := List.mem_flatMap.mp onCircuit
      obtain ⟨i, -, rfl⟩ := List.mem_map.mp inModels
      obtain ⟨-, rfl⟩ : isActive mask n = true ∧ c.column = row := by simpa [Rows.row?] using landed
      exact .inr ⟨c, Option.mem_toList.mp column, rfl⟩

omit [BaseScalar β] [Scalar α] in
theorem Region.base_add_le_of_bare_eq {r r' : Region β α} (same : r'.bare = r.bare)
    (rows : r.base + r.rowCount ≤ count) : r'.base + r'.rowCount ≤ count :=
  Region.eq_of_bare_eq (f := fun r => r.base + r.rowCount) (fun _ => rfl) same ▸ rows

namespace Coupled

variable {c c' : Coupled β α}

/-- The regions have their rows below the bound, and the pairs join nodes of theirs. -/
structure Bounded (count : Nat) (c : Coupled β α) : Prop where
  rows : ∀ side, (c.region side).base + (c.region side).rowCount ≤ count
  joined : c.Joined

omit [BaseScalar β] [Scalar α]

theorem Joined.of_bare_eq (joined : c.Joined) (junction : c'.junction.bare = c.junction.bare)
    (regions : ∀ side, (c'.region side).bare = (c.region side).bare) : c'.Joined := by
  intro side
  have nodes : (c'.region side).nodeCount = (c.region side).nodeCount :=
    Region.eq_of_bare_eq (f := Region.nodeCount) (fun _ => rfl) (regions side)
  rw [Junction.bare_eq_iff.mp junction, nodes]
  exact joined side

theorem Bounded.of_bare_eq (bounded : c.Bounded count) (junction : c'.junction.bare = c.junction.bare)
    (regions : ∀ side, (c'.region side).bare = (c.region side).bare) : c'.Bounded count where
  rows side := Region.base_add_le_of_bare_eq (regions side) (bounded.rows side)
  joined := bounded.joined.of_bare_eq junction regions

end Coupled

namespace InterfaceEquation

variable (e : InterfaceEquation)

omit [BaseScalar β] [Scalar α] in
/-- A derivative with respect to a variable of a side has the columns of an equation on that side. -/
theorem exists_firstRow?_of_mem_derivatives {c : Coupled β α} {side : Side} {d : SideDerivative}
    (member : d ∈ e.derivatives c side) :
    d.side = side ∧ ∃ equation, (c.region side).firstRow? equation = some d.start := by
  obtain ⟨v, -, found⟩ := List.mem_filterMap.mp member
  obtain ⟨start, slot, found⟩ := Option.bind_eq_some_iff.mp found
  obtain ⟨equation, -, here⟩ := Option.bind_eq_some_iff.mp slot
  split at found
  · cases found
    exact ⟨rfl, equation, here⟩
  · cases found

/-- The matrix records of an interface equation lie in columns of the nodes of its pairs. -/
theorem writes_inColumns (numeric : select ≠ .rows) :
    (e.assemble mask settings select time : CoupledPass β α Unit).Writes fun _ c records =>
      ∀ entry ∈ records.matrix, ∃ pair ∈ c.junction.geometry.activePairs mask, ∃ side equation,
        (c.region side).row? equation (Interface.nodeOf side pair) = some entry.column := by
  refine (e.writes_assemble numeric).mono ?_
  intro _ c records holds entry member
  cases time with
  | transient =>
    rw [holds] at member
    cases member
  | steady =>
    obtain ⟨start0, start1, -, -, complete, incomplete⟩ := holds
    by_cases here : e.Complete settings.measures c
    · rw [complete here, InterfaceEquation.records, recordsWith] at member
      dsimp only at member
      split at member
      · obtain ⟨d, isDerivative, inPairs⟩ := List.mem_flatMap.mp member
        obtain ⟨p, isPair, weighed⟩ := List.mem_flatMap.mp inPairs
        obtain ⟨w, -, rfl⟩ := List.mem_map.mp weighed
        obtain ⟨⟨pair, index⟩, active, rfl⟩ := List.mem_map.mp isPair
        obtain ⟨side, isDerivative⟩ : ∃ side, d ∈ e.derivatives c side :=
          (List.mem_append.mp isDerivative).elim (⟨_, ·⟩) (⟨_, ·⟩)
        obtain ⟨rfl, equation, start⟩ := e.exists_firstRow?_of_mem_derivatives isDerivative
        refine ⟨pair, List.mem_map.mpr ⟨_, active, rfl⟩, d.side, equation, ?_⟩
        rw [Region.row?_eq, start, Option.map_some]
        cases d.side <;> rfl
      · cases member
    · rw [incomplete here] at member
      cases member

theorem writes_below (count : Nat) (numeric : select ≠ .rows) :
    (e.assemble mask settings select time : CoupledPass β α Unit).Writes fun _ c records =>
      c.Bounded count → records.Below count := by
  refine ((e.writes_rows numeric).and (e.writes_inColumns numeric)).mono ?_
  rintro _ c records ⟨rows, columns⟩ bounded
  have below : ∀ {pair side equation i}, pair ∈ c.junction.geometry.activePairs mask →
      (c.region side).row? equation (Interface.nodeOf side pair) = some i → i < count := by
    intro pair side equation i active here
    obtain ⟨k, isPair, -⟩ := Interface.mem_activePairs.mp active
    have inside := bounded.joined side pair (List.mem_of_getElem? isPair)
    exact Nat.lt_of_lt_of_le (Region.row?_bounds here inside).2 (bounded.rows side)
  refine ⟨fun row member => ?_, fun entry member => ?_⟩
  · obtain ⟨pair, active, side, here⟩ := rows row member
    exact below active here
  · obtain ⟨pair, active, side, equation, here⟩ := columns entry member
    exact below active here

end InterfaceEquation

/-! ## Steps that stay within a bound -/

/-- The step keeps the invariant of the owner. Where it succeeds, it appends records below the bound. -/
structure Pass.Confined {σ : Type} (invariant : σ → Prop) (count : Nat) (step : Pass σ α Unit) :
    Prop where
  ran : ∀ s, invariant s.owner → invariant (step s).2.owner ∧
    ((step s).1 = .ok () → ∃ records, (step s).2.out = s.out.append records ∧ records.Below count)

namespace Pass

variable {σ : Type} {invariant : σ → Prop} {step : Pass σ α Unit}

omit [BaseScalar β] [Scalar α]

theorem Writes.confined [Owner σ] {post : σ → Records α → Prop} (writes : Writes step fun _ => post)
    (kept : ∀ {o o'}, invariant o → Owner.Later o o' → invariant o')
    (below : ∀ {o records}, invariant o → post o records → records.Below count) :
    Confined invariant count step := by
  refine ⟨fun s holds => ?_⟩
  obtain ⟨-, later, succeeded⟩ := writes.ran s
  refine ⟨kept holds later, fun ran => ?_⟩
  obtain ⟨records, out, appended⟩ := succeeded () ran
  exact ⟨records, out, below (kept holds later) (appended _ (Owner.refl _))⟩

theorem Confined.forM {ι : Type} {body : ι → Pass σ α Unit} {items : List ι}
    (each : ∀ x ∈ items, Confined invariant count (body x)) :
    Confined invariant count (items.forM body) := by
  induction items with
  | nil => exact ⟨fun s holds => ⟨holds, fun _ => ⟨{}, (Records.append_empty _).symm, .empty _⟩⟩⟩
  | cons x rest ih =>
    refine ⟨fun s holds => ?_⟩
    rw [forM_cons]
    obtain ⟨holds₁, first⟩ := (each x (by simp)).ran s holds
    rcases ran : body x s with ⟨e | ⟨⟩, s₁⟩
    · rw [bind_of_error ran]
      rw [ran] at holds₁
      exact ⟨holds₁, fun failed => nomatch failed⟩
    · rw [bind_of_ok ran]
      rw [ran] at holds₁ first
      obtain ⟨records, out, below⟩ := first rfl
      obtain ⟨holds₂, second⟩ := (ih fun y member => each y (by simp [member])).ran s₁ holds₁
      refine ⟨holds₂, fun ran' => ?_⟩
      obtain ⟨records', out', below'⟩ := second ran'
      exact ⟨_, by rw [out', out, Records.append_assoc], below.append below'⟩

end Pass

/-! ## Parts of a device -/

namespace Parts

omit [BaseScalar β] [Scalar α]

/-- Regular parts whose regions have their rows below the bound, and whose interfaces join nodes of the
regions. -/
structure Bounded (count : Nat) (p : Parts β α) : Prop where
  regular : p.Regular
  rows : ∀ name r, p.regions.get? name = some r → r.base + r.rowCount ≤ count
  joined : ∀ name c, p.coupled? name = some c → c.Joined

theorem Bounded.coupled {p : Parts β α} {name : String} {c : Coupled β α} (bounded : p.Bounded count)
    (found : p.coupled? name = some c) : c.Bounded count where
  rows side := bounded.rows _ _ ((coupled?_eq_some_iff.mp found).2 side)
  joined := bounded.joined name c found

theorem Bounded.later {p p' : Parts β α} (bounded : p.Bounded count) (later : Owner.Later p p') :
    p'.Bounded count where
  regular := bounded.regular.later later
  rows name r' found' := by
    obtain ⟨r, found, bare⟩ := get?_regions_of_bare_eq later.bare.symm found'
    exact Region.base_add_le_of_bare_eq bare.symm (bounded.rows name r found)
  joined name c' found' := by
    obtain ⟨c, found, junction, regions⟩ := coupled?_of_bare_eq later.bare.symm found'
    exact (bounded.joined name c found).of_bare_eq junction.symm fun side => (regions side).symm

theorem confined_onRegion [Scalar α] {name : String} {step : Pass (Region β α) α Unit}
    {post : Region β α → Records α → Prop} (writes : step.Writes fun _ => post)
    (below : ∀ {r records}, r.Regular → r.base + r.rowCount ≤ count → post r records →
      records.Below count) :
    Pass.Confined (Bounded count) count (discard (onRegion name step) : Pass (Parts β α) α Unit) := by
  rw [onRegion_eq]
  refine ⟨fun s bounded => ?_⟩
  cases found : s.owner.regions.get? name with
  | none =>
    rw [Pass.run_discard_onPart?_of_missing found]
    exact ⟨bounded, fun _ => ⟨{}, (Records.append_empty _).symm, .empty _⟩⟩
  | some r =>
    rw [Pass.run_discard_onPart? found]
    obtain ⟨-, later, succeeded⟩ := writes.ran { s with owner := r }
    refine ⟨bounded.later (later_setRegion found later), fun ran => ?_⟩
    obtain ⟨records, out, appended⟩ := succeeded () ran
    have rows := Region.base_add_le_of_bare_eq later.progress.bare_eq (bounded.rows name r found)
    exact ⟨records, out, below ((bounded.regular.regions name r found).later later) rows
      (appended _ (Owner.refl _))⟩

end Parts

section

variable (d : Device β α) (numeric : select ≠ .rows)

include numeric

theorem Boundary.confined_step (circuit : d.circuit.base + d.circuit.size ≤ count) (b : Boundary β) :
    (b.step d select time).Confined (Parts.Bounded count) count := by
  cases b with
  | contact region e mask =>
    exact Parts.confined_onRegion (e.writes_below count numeric) fun regular rows below =>
      below regular rows circuit
  | interface name e mask =>
    refine (Parts.writes_onCoupled (e.writes_below count numeric) ?_).confined Parts.Bounded.later ?_
    · intro c c' records junction regions below bounded
      exact below (bounded.of_bare_eq junction.symm fun side => (regions side).symm)
    · rintro p records bounded (⟨-, rfl⟩ | ⟨c, found, below⟩)
      · exact .empty _
      · exact below (bounded.coupled found)

theorem Device.confined_boundaryPass (time : TimeMode)
    (circuit : d.circuit.base + d.circuit.size ≤ count) :
    (d.boundaryPass select time).Confined (Parts.Bounded count) count := by
  rw [boundaryPass_eq]
  exact .forM fun b _ => b.confined_step d numeric circuit

theorem Device.confined_bulkPass (time : TimeMode) :
    (d.bulkPass select time).Confined (Parts.Bounded count) count :=
  .forM fun x _ => Parts.confined_onRegion (x.2.writes_below count numeric) fun regular rows below =>
    below regular rows

end

end FiniteVolume
