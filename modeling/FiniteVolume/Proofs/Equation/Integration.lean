import FiniteVolume.Proofs.Assembly.Sums
import FiniteVolume.Proofs.Assembly.Rows
import FiniteVolume.Proofs.Equation.Terms
import FiniteVolume.Proofs.Model.Layout

/-!
Integrals over the nodes of a contact.

What a term carries through the nodes of a mask is, in exact arithmetic, what it scatters to a single
row for these nodes (`Integrand.through_eq_sumAt`): an opposed flux between two nodes of the mask
is left out of the one and cancels in the other. So the current and the charge that a contact equation
integrates are the sums of the records that it puts on the row of its circuit node.
-/
namespace FiniteVolume

variable {β α : Type}

/-! ## Steps that integrate -/

namespace Integrand

variable [Scalar α]

def through (i : Integrand) (mesh : Mesh β) (mask : Array Bool) (values : Array α) : α :=
  match i with
  | node _ => sumOverNodes mask values
  | flux f => sumThroughMask (mesh.stencil f.domain) f.ends mask values

def integral (measures : MeasureNames) (mask : Array Bool) (r : Region β α) (i : Integrand) : α :=
  i.through r.mesh mask (weigh (r.values i.domain (i.measure measures)) (r.values i.domain i.model))

theorem through_empty (i : Integrand) {mesh : Mesh β} {mask : Array Bool} :
    i.through mesh mask (#[] : Array α) = 0 := by
  cases i <;> simp [through, sumOverNodes, sumThroughMask, total]

end Integrand

def CircuitModels.integralOver [Scalar α] (m : CircuitModels) (measures : MeasureNames)
    (mask : Array Bool) (r : Region β α) : α :=
  total ((m.integrands measures r.mesh.elementDomain).map (Integrand.integral measures mask r))

variable [BaseScalar β]

section

variable [Scalar α] (site : Site β) (mask : Array Bool)

namespace Term

open Pass

theorem writes_required_pair {d : Domain} {measure model : String}
    {next : Field α → Field α → RegionPass β α α} {g : Region β α → Array α → Array α → α}
    (writes : ∀ measure values, (next measure values).Writes fun x o records =>
      records = {} ∧ x = g o measure.toArray values.toArray)
    (left : ∀ o values, g o #[] values = 0) (right : ∀ o measure, g o measure #[] = 0) :
    (do
      let some measure ← required site d measure | return 0
      let some values ← required site d model | return 0
      next measure values : RegionPass β α α).Writes fun x o records =>
        records = {} ∧ x = g o (o.values d measure) (o.values d model) := by
  refine (writes_required site d measure).bind_lookup (q := fun weights x o records =>
    records = {} ∧ x = g o (valuesOf weights) (o.values d model)) (fun weights => ?_) ?_
  · cases weights with
    | none => exact (Writes.pure _).mono fun _ o _ ⟨same, nothing⟩ => ⟨nothing, same.trans (left o _).symm⟩
    | some weights =>
      refine (writes_required site d model).bind_lookup (q := fun values x o records =>
        records = {} ∧ x = g o weights.toArray (valuesOf values)) (fun values => ?_) ?_
      · cases values with
        | none =>
          exact (Writes.pure _).mono fun _ o _ ⟨same, nothing⟩ =>
            ⟨nothing, same.trans (right o _).symm⟩
        | some values => exact writes weights values
      · rintro values x o _ held ⟨rfl, rfl⟩
        exact ⟨rfl, by rw [held]; rfl⟩
  · rintro weights x o _ held ⟨rfl, rfl⟩
    exact ⟨rfl, by rw [held]⟩

theorem writes_nodeIntegral (model : String) :
    Writes (nodeIntegral site mask model : RegionPass β α α) fun x o records =>
      records = {} ∧ x = Integrand.integral site.settings.measures mask o (.node model) := by
  refine writes_required_pair site (g := fun o measure values =>
    (Integrand.node model).through o.mesh mask (weigh measure values)) (fun volume values => ?_)
    (fun o values => ?_) (fun o measure => ?_)
  · refine (writes_weighted site model volume values).bind_pure ?_
    rintro _ _ _ ⟨nothing, rfl⟩
    exact ⟨nothing, rfl⟩
  · rw [weigh_empty_left, Integrand.through_empty]
  · rw [weigh_empty_right, Integrand.through_empty]

theorem writes_fluxIntegral (f : Flux) :
    Writes (fluxIntegral site mask f : RegionPass β α α) fun x o records =>
      records = {} ∧ x = Integrand.integral site.settings.measures mask o (.flux f) := by
  refine writes_required_pair site (g := fun o measure values =>
    (Integrand.flux f).through o.mesh mask (weigh measure values)) (fun measure values => ?_)
    (fun o values => ?_) (fun o measure => ?_)
  · refine (writes_weighted site f.model measure values).bind_lookup (q := fun w x o records =>
      records = {} ∧ x = (Integrand.flux f).through o.mesh mask w) (fun w => ?_) ?_
    · refine Writes.get.bind_pure fun s o records ⟨later, nothing⟩ => ⟨nothing, ?_⟩
      rw [mesh_of_later later]
      rfl
    · rintro _ x o _ rfl ⟨rfl, rfl⟩
      exact ⟨rfl, rfl⟩
  · rw [weigh_empty_left, Integrand.through_empty]
  · rw [weigh_empty_right, Integrand.through_empty]

end Term

theorem eq_map_of_forall₂ {ι γ : Type} {f : ι → γ} {items : List ι} {results : List γ}
    (all : List.Forall₂ (fun x y => y = f x) items results) : results = items.map f := by
  induction all with
  | nil => rfl
  | cons here _ ih => rw [here, ih, List.map_cons]

/-- Integration appends no records and returns the sum of the integrals of the terms. -/
theorem CircuitModels.writes_integral (m : CircuitModels) :
    (m.integral site mask : RegionPass β α α).Writes fun x o records =>
      records = {} ∧ x = m.integralOver site.settings.measures mask o := by
  unfold integral
  refine Pass.Writes.bind_get (q := fun s x o records => records = {} ∧ x =
    total ((m.integrands site.settings.measures s.owner.mesh.elementDomain).map
      (Integrand.integral site.settings.measures mask o))) (fun s => ?_) ?_
  · refine (Pass.Writes.mapM fun model _ => Term.writes_nodeIntegral site mask model).bind_lookup
      (q := fun nodes x o records => records = {} ∧ x = total (nodes ++
        (m.fluxes site.settings.measures s.owner.mesh.elementDomain).map fun f =>
          Integrand.integral site.settings.measures mask o (.flux f))) (fun nodes => ?_) ?_
    · refine (Pass.Writes.mapM fun f _ => Term.writes_fluxIntegral site mask f).bind_pure ?_
      rintro fluxes o _ ⟨rfl, all⟩
      exact ⟨rfl, by rw [eq_map_of_forall₂ all]⟩
    · rintro nodes x o _ all ⟨rfl, rfl⟩
      rw [eq_map_of_forall₂ all]
      simp [integrands, Function.comp_def]
  · rintro s x o _ later ⟨rfl, rfl⟩
    rw [Term.mesh_of_later later]
    exact ⟨rfl, rfl⟩

/-- Integration appends no records and changes only current and charge of the equation. -/
theorem ContactEquation.writes_integrate [Precision β α] (e : ContactEquation β)
    (settings : Settings β) :
    (e.integrate mask settings : RegionPass β α (ContactEquation β)).Writes fun e' o records =>
      records = {} ∧ e' = { e with
        current := Precision.widen (e.models.current.integralOver settings.measures mask o)
        charge := Precision.widen (e.models.charge.integralOver settings.measures mask o) } := by
  unfold integrate
  refine Pass.Writes.bind_get (q := fun _ e' o records => records = {} ∧ e' = { e with
    current := Precision.widen (e.models.current.integralOver settings.measures mask o)
    charge := Precision.widen (e.models.charge.integralOver settings.measures mask o) })
    (fun s => ?_) fun _ _ _ _ _ holds => holds
  refine (e.models.current.writes_integral _ mask).bind_lookup (q := fun current e' o records =>
    records = {} ∧ e' = { e with
      current := Precision.widen current
      charge := Precision.widen (e.models.charge.integralOver settings.measures mask o) })
    (fun current => ?_) ?_
  · refine (e.models.charge.writes_integral _ mask).bind_pure ?_
    rintro _ o _ ⟨nothing, rfl⟩
    exact ⟨nothing, rfl⟩
  · rintro _ e' o _ rfl holds
    exact holds

end

/-! ## Integrals as sums of records -/

variable [Scalar α] [ExactScalar α]

section

omit [BaseScalar β]

variable {mask : Array Bool} {row : Nat}

theorem total_eq_sum (values : List α) : total values = values.sum := List.sum_eq_foldl.symm

theorem sumAt_of_row_eq {contributions : List (Contribution α)}
    (onRow : ∀ c ∈ contributions, c.row = row) :
    sumAt row (fun _ => 1) contributions = (contributions.map (·.value)).sum := by
  refine congrArg List.sum (List.map_congr_left fun c member => ?_)
  rw [if_pos (onRow c member), one_mul]

/-- An entity carries through a mask what it puts on a row for the mask. Where this is nothing because
both ends are in the mask, the two contributions cancel. -/
theorem sum_throughMask (ends : EndWeights) (n0 n1 : Nat) (rest : List Nat) (value : α) :
    (throughMask ends mask (n0 :: n1 :: rest) value).sum =
      ((atEnds ends (.single row mask) (n0 :: n1 :: rest) value).map (·.value)).sum := by
  unfold throughMask
  split
  next inside =>
    obtain ⟨rfl, active⟩ := inside
    simp only [List.take_succ_cons, List.take_zero, List.all_cons, List.all_nil, Bool.and_true,
      Bool.and_eq_true] at active
    simp [atEnds, Side.both, EndWeights.factor?, Side.index, Rows.row?, active]
  · rw [atEnds, List.map_filterMap]
    refine congrArg List.sum (List.filterMap_congr fun side _ => ?_)
    cases ends.factor? side (α := α) with
    | none => rfl
    | some factor =>
      cases (n0 :: n1 :: rest)[side.index]? with
      | none => rfl
      | some node => by_cases active : isActive mask node <;> simp [Rows.row?, active]

/-- What a term carries through the nodes of a mask is what it puts on a row for these nodes. -/
theorem Integrand.through_eq_sumAt (i : Integrand) (mesh : Mesh β) (values : Array α) :
    i.through mesh mask values =
      sumAt row (fun _ => 1) (i.contributions mesh (.single row mask) values) := by
  rw [sumAt_of_row_eq fun c member => ?_]
  · cases i with
    | node model =>
      rw [through, sumOverNodes, total_eq_sum, contributions, atNodes, List.map_filterMap,
        ← List.filterMap_eq_map, List.filterMap_filter]
      refine congrArg List.sum (List.filterMap_congr ?_)
      rintro ⟨v, n⟩ _
      by_cases active : isActive mask n <;> simp [Rows.row?, active]
    | flux f =>
      rw [through, sumThroughMask, total_eq_sum, contributions, scatter, List.map_flatMap,
        List.flatMap, List.flatMap, List.sum_flatten, List.sum_flatten, List.map_map, List.map_map]
      refine congrArg List.sum (List.map_congr_left ?_)
      rintro ⟨corners, v⟩ member
      obtain ⟨n0, n1, rest, rfl⟩ := Mesh.exists_ends_of_mem_stencil
        (Array.mem_toList_iff.mp (List.of_mem_zip member).1)
      exact sum_throughMask f.ends n0 n1 rest v
  · obtain ⟨n, target⟩ := i.exists_row?_of_mem_contributions member
    simp only [Rows.row?] at target
    split at target
    · exact (Option.some.inj target).symm
    · cases target

end

/-! ## The row of the circuit node -/

theorem Records.residualAt_of_not_mem_rows {r : Records α} {row : Nat} (free : row ∉ r.rows) :
    r.residualAt row = 0 := by
  refine List.sum_eq_zero fun x member => ?_
  obtain ⟨m, inResidual, rfl⟩ := List.mem_map.mp member
  refine if_neg ?_
  rintro rfl
  exact free (List.mem_append_right _ (List.mem_map_of_mem inResidual))

section

omit [BaseScalar β]

variable {measures : MeasureNames} {mask : Array Bool} {r : Region β α} {c : CircuitColumn}
  {circuit : Option CircuitColumn}

/-- The residual of models on the row of a circuit node is their integral. -/
theorem CircuitModels.residualAt_eq_integral (m : CircuitModels) :
    (Integrand.assembled measures circuit .residual ((m.integrands measures
      r.mesh.elementDomain).map (Rows.single c.column mask, ·)) r).residualAt c.column =
        m.integralOver measures mask r := by
  rw [Integrand.assembled, Records.residualAt_join, List.map_map, List.map_map, integralOver,
    total_eq_sum]
  refine congrArg List.sum (List.map_congr_left fun i _ => ?_)
  exact residualAt_residualRecords.trans (i.through_eq_sumAt r.mesh _).symm

omit [ExactScalar α] in
theorem CircuitModels.integralOver_of_reading {m : CircuitModels} {measures : MeasureNames}
    {mask : Array Bool} {r o : Region β α} (reading : r.Reading o) (ready : r.Ready) :
    m.integralOver measures mask o = m.integralOver measures mask r := by
  have mesh : o.mesh = r.mesh :=
    Region.eq_of_uncached_eq (f := Region.mesh) (fun _ => rfl) reading.balanced.declared
  have same : (Integrand.integral measures mask o : Integrand → α) = Integrand.integral measures mask r := by
    funext i
    rw [Integrand.integral, Integrand.integral, mesh, reading.values_eq ready, reading.values_eq ready]
  rw [integralOver, integralOver, mesh, same]

end

namespace ContactEquation

def integrated (e : ContactEquation β) : TimeMode → β
  | .steady => e.current
  | .transient => e.charge

variable (e : ContactEquation β) {mask : Array Bool} {circuit : Circuit β} {settings : Settings β}
  {time : TimeMode} {c : CircuitColumn} {r : Region β α}

/-- Where the row of the circuit node is none of the rows of the equation, the residual records on it
sum to the integral of the models for the circuit. -/
theorem residualAt_circuit_row {start : Nat} {o : Region β α} (wellFormed : o.mesh.WellFormed)
    (sized : ∀ d name, (o.values d name).size ≤ o.size d)
    (apart : ∀ n < o.nodeCount, start + n ≠ c.column) {measures : MeasureNames} :
    (Integrand.assembled measures (some c) .residual (e.terms measures o.mesh.elementDomain time
      start mask (some c)) o).residualAt c.column =
        (e.models.circuit time).integralOver measures mask o := by
  rw [terms, Integrand.assembled_append, Records.residualAt_append,
    Records.residualAt_of_not_mem_rows fun member => ?_, zero_add]
  · simpa using (e.models.circuit time).residualAt_eq_integral
  · obtain ⟨term, inTerms, n, inside, row⟩ :=
      Integrand.exists_node_of_mem_assembled member wellFormed sized
    obtain ⟨i, -, rfl⟩ := List.mem_map.mp inTerms
    simp only [Rows.row?] at row
    split at row
    · exact apart n inside (Option.some.inj row)
    · cases row

/-- If the row of the circuit node is none of the rows of the equation, the current that the equation
integrates is the sum of the residual records that its steady pass puts on this row, and the charge
the sum of those of its transient pass. -/
theorem integrated_eq_residualAt_circuit_row [Precision β α] {s s' t t' : PassState (Region β α) α}
    {e' : ContactEquation β} (ready : r.Ready) (atAssembly : r.Reading s.owner)
    (atIntegration : r.Reading t.owner) (wellFormed : r.mesh.WellFormed)
    (column : e.column? circuit = some c)
    (apart : ∀ start, r.firstRow? e.name = some start → ∀ n < r.nodeCount, start + n ≠ c.column)
    (assembled : e.assemble mask circuit settings .residual time s = (.ok (), s'))
    (integrated : e.integrate mask settings t = (.ok e', t')) :
    ∃ records, s'.out = s.out.append records ∧
      e'.integrated time = Precision.widen (records.residualAt c.column) := by
  obtain ⟨later, records, out, start, slot, rfl⟩ :=
    (e.writes_assemble (by simp)).appended assembled
  obtain ⟨later', -, -, -, rfl⟩ := (e.writes_integrate mask settings).appended integrated
  have reading : r.Reading s'.owner := later.reading r ready atAssembly
  have reading' : r.Reading t'.owner := later'.reading r ready atIntegration
  have mesh : s'.owner.mesh = r.mesh :=
    Region.eq_of_uncached_eq (f := Region.mesh) (fun _ => rfl) reading.balanced.declared
  have sized : ∀ d name, (s'.owner.values d name).size ≤ s'.owner.size d := by
    intro d name
    rw [reading.values_eq ready, Region.size_of_uncached_eq reading.balanced.declared]
    exact ready.size_values_le d name
  have slot' : r.firstRow? e.name = some start := by
    rw [← slot]
    exact congrFun (Region.eq_of_uncached_eq (f := Region.firstRow?) (fun _ => rfl)
      reading.balanced.declared).symm e.name
  refine ⟨_, out, ?_⟩
  have apart' : ∀ n < s'.owner.nodeCount, start + n ≠ c.column := by
    rw [Region.nodeCount, mesh]
    exact apart start slot'
  rw [column, e.residualAt_circuit_row (mesh ▸ wellFormed) sized apart',
    CircuitModels.integralOver_of_reading reading ready,
    ← CircuitModels.integralOver_of_reading reading' ready]
  cases time <;> rfl

/-- A triangle with two nodes on the contact and all kinds of models: the edge between the two nodes
carries nothing out of the contact. -/
theorem integrated_eq_residualAt_circuit_row_on_triangle :
    let mesh : Mesh ℚ := ⟨.triangle, #[⟨0, 0, 0⟩, ⟨1, 0, 0⟩, ⟨0, 1, 0⟩], #[⟨1, 2⟩, ⟨0, 2⟩, ⟨0, 1⟩],
      #[⟨[0, 1, 2], [0, 1, 2]⟩]⟩
    let r : Region ℚ ℚ := (Region.create 0 "device" "region" mesh {}).run
      [.addEquation "flow" "v", .setUniform .node "NodeVolume" 2, .setUniform .edge "EdgeCouple" 3,
        .setUniform .triangleEdge "ElementEdgeCouple" 5, .setData .node "v" (.vector #[1, 4, 9]),
        .declare .edge "F" ∅ (.model "v@n1"), .setData .triangleEdge "G" (.vector #[1, 10, 100])]
    let circuit : Circuit ℚ := ({ base := 3 } : Circuit ℚ).add "wire" 0
    let e : ContactEquation ℚ := { name := "flow", contact := "left", circuitNode := "wire", models :=
      { edge := "F", current := { node := "v", edge := "F", element := "G" },
        charge := { edge := "missing", element := "G" } } }
    let settings : Settings ℚ := { missingModel := .error }
    let steady := (e.assemble #[true, true] circuit settings .residual .steady { owner := r }).2
    let transient := (e.assemble #[true, true] circuit settings .residual .transient { owner := r }).2
    ∃ integrated, (e.integrate #[true, true] settings steady).1 = .ok integrated ∧
      integrated.current = 119 ∧ steady.out.residualAt 3 = 119 ∧
      integrated.charge = 55 ∧ transient.out.residualAt 3 = 55 := by
  intro mesh r circuit e settings steady transient
  have built : Mesh.triangles mesh.points [[0, 1, 2]] = .ok mesh := rfl
  have ready : r.Ready := ((Region.Settled.create ..).run _).ready
  have wellFormed : r.mesh.WellFormed := by
    rw [(Region.follows_run ..).mesh]
    exact Mesh.wellFormed_ofElements built
  have slot : r.firstRow? e.name = some 0 := by decide +kernel
  have nodes : r.nodeCount = 3 := by decide +kernel
  have column : e.column? circuit = some ⟨"wire", 3⟩ := by decide +kernel
  have succeeds : (e.assemble #[true, true] circuit settings .residual .steady
      { owner := r }).1.toOption.isSome := by decide +kernel
  have succeeds' : (e.assemble #[true, true] circuit settings .residual .transient
      { owner := r }).1.toOption.isSome := by decide +kernel
  have integrates : (e.integrate #[true, true] settings steady).1.toOption.isSome := by
    decide +kernel
  have current : steady.out.residualAt 3 = 119 := by decide +kernel
  have charge : transient.out.residualAt 3 = 55 := by decide +kernel
  have apart : ∀ start, r.firstRow? e.name = some start → ∀ n < r.nodeCount, start + n ≠ 3 := by
    rw [slot, nodes]
    rintro _ ⟨⟩ n inside
    omega
  have reading : r.Reading steady.owner :=
    ((e.writes_assemble (by simp)).ran { owner := r }).2.1.reading r ready ready.reading
  obtain ⟨integrated, ran⟩ := Pass.exists_ok_of_isSome integrates
  obtain ⟨⟨⟩, assembled⟩ := Pass.exists_ok_of_isSome succeeds
  obtain ⟨⟨⟩, assembled'⟩ := Pass.exists_ok_of_isSome succeeds'
  clear_value r circuit e settings
  obtain ⟨_, out, same⟩ := e.integrated_eq_residualAt_circuit_row ready ready.reading reading
    wellFormed column apart assembled ran
  obtain ⟨_, out', same'⟩ := e.integrated_eq_residualAt_circuit_row ready ready.reading reading
    wellFormed column apart assembled' ran
  rw [Records.empty_append] at out out'
  subst out out'
  exact ⟨integrated, congrArg Prod.fst ran, same.trans current, current, same'.trans charge, charge⟩

end ContactEquation

end FiniteVolume
