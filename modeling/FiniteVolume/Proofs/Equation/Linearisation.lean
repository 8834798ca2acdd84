import FiniteVolume.Proofs.Device.Numbering
import FiniteVolume.Proofs.Equation.Directional
import FiniteVolume.Proofs.Equation.Coupling

/-!
The matrix pass is the linearisation of the residual pass.

For an equation of one region this is `BulkEquation.linearises` and `ContactEquation.linearises`; here
it is shown for interface equations, whose matrix has columns in two regions, and stated for all kinds
of equations (`matrix_linearises_residual`).
-/
namespace FiniteVolume

variable {β α : Type} [Scalar α] [ExactScalar α]

/-! ## Pairs -/

/-- The share of a pair in a row: the factors of the sides that lie on it. -/
def PairRows.share (p : PairRows) (coupling : Coupling) (area0 area1 : Array α) (row : Nat) : α :=
  (Side.both.map fun side => if p.row side = row then
    (coupling.factor? area0 area1 side (p.node side)).getD 0 else 0).sum

/-- The directional model of an interface equation at a pair: the derivatives of both sides times the
numbers of their columns. -/
def InterfaceEquation.direction (e : InterfaceEquation) (c : Coupled β α) (x : Nat → α) (index : Nat)
    (pair : Nat × Nat) : α :=
  (Side.both.map fun side => ((c.region side).variableNames.map fun u =>
    c.valueAt (e.derivativeOn side u) index
      * x ((c.region side).firstColumn u + Interface.nodeOf side pair)).sum).sum

section

variable (x : Nat → α) (row : Nat) (pairs : List PairRows) (coupling : Coupling)
  (area0 area1 values : Array α)

theorem PairRows.sum_weigh (p : PairRows) (y : α) :
    ((p.weigh coupling area0 area1 values).map fun w => if w.1 = row then w.2 * y else 0).sum =
      p.share coupling area0 area1 row * (values[p.index]?.getD 0 * y) := by
  have side : ∀ s : Side, ((Option.toList do
      let factor ← coupling.factor? area0 area1 s (p.node s)
      let v ← values[p.index]?
      return (p.row s, factor * v)).map fun w => if w.1 = row then w.2 * y else 0).sum =
        (if p.row s = row then (coupling.factor? area0 area1 s (p.node s)).getD 0 else 0)
          * (values[p.index]?.getD 0 * y) := by
    intro s
    cases coupling.factor? area0 area1 s (p.node s) <;> cases values[p.index]? <;>
      by_cases same : p.row s = row <;> simp [same, mul_assoc]
  rw [weigh, List.filterMap_eq_flatMap_toList, Side.both]
  simp only [List.flatMap_cons, List.flatMap_nil, List.append_nil, List.map_append, List.sum_append,
    side]
  simp only [share, Side.both, List.map_cons, List.map_nil, List.sum_cons, List.sum_nil, add_zero,
    add_mul]

theorem Records.residualAt_flatMap {ι : Type} (items : List ι) (f : ι → List (ResidualRecord α)) :
    residualAt ⟨[], items.flatMap f⟩ row = (items.map fun i => residualAt ⟨[], f i⟩ row).sum := by
  induction items with
  | nil => rfl
  | cons i rest ih =>
    rw [List.flatMap_cons, List.map_cons, List.sum_cons, ← ih]
    exact residualAt_append (r := ⟨[], f i⟩) (s := ⟨[], rest.flatMap f⟩)

theorem residualAt_pairs :
    Records.residualAt ⟨[], pairs.flatMap fun p => (p.weigh coupling area0 area1 values).map
      fun w => ⟨w.1, w.2⟩⟩ row =
        (pairs.map fun p => p.share coupling area0 area1 row * values[p.index]?.getD 0).sum := by
  rw [Records.residualAt_flatMap]
  refine congrArg List.sum (List.map_congr_left fun p _ => ?_)
  have sum := p.sum_weigh row coupling area0 area1 values 1
  simpa [Records.residualAt, Function.comp_def] using sum

theorem matrixAt_pairs (values : String → Array α) (derivatives : List SideDerivative) :
    Records.matrixAt ⟨derivatives.flatMap fun d => pairs.flatMap fun p =>
      (p.weigh coupling area0 area1 (values d.name)).map
        fun w => ⟨w.1, d.start + p.node d.side, w.2⟩, []⟩ x row =
      (pairs.map fun p => p.share coupling area0 area1 row * (derivatives.map fun d =>
        (values d.name)[p.index]?.getD 0 * x (d.start + p.node d.side)).sum).sum := by
  rw [Records.matrixAt_flatMap]
  have column : ∀ d : SideDerivative, Records.matrixAt ⟨pairs.flatMap fun p =>
      (p.weigh coupling area0 area1 (values d.name)).map
        fun w => ⟨w.1, d.start + p.node d.side, w.2⟩, []⟩ x row =
      (pairs.map fun p => p.share coupling area0 area1 row *
        ((values d.name)[p.index]?.getD 0 * x (d.start + p.node d.side))).sum := by
    intro d
    rw [Records.matrixAt_flatMap]
    refine congrArg List.sum (List.map_congr_left fun p _ => ?_)
    rw [← p.sum_weigh]
    simp [Records.matrixAt, Function.comp_def]
  simp only [column]
  induction derivatives with
  | nil => simp
  | cons d rest ih => simp [ih, mul_add, List.sum_map_add]

end

/-! ## Directions -/

theorem sum_filterMap {ι κ : Type} (items : List ι) (g : ι → Option κ) (h : κ → α) :
    ((items.filterMap g).map h).sum = (items.map fun i => ((g i).map h).getD 0).sum := by
  induction items with
  | nil => rfl
  | cons i rest ih => cases found : g i <;> simp [found, ih]

namespace InterfaceEquation

variable (e : InterfaceEquation) (c : Coupled β α) {x : Nat → α} {pair : Nat × Nat} {index : Nat}

/-- What is not declared is zero, so that all variables may be summed over. -/
theorem sum_derivatives (side : Side) :
    ((e.derivatives c side).map fun d => c.valueAt d.name index
        * x (d.start + Interface.nodeOf d.side pair)).sum =
      ((c.region side).variableNames.map fun u => c.valueAt (e.derivativeOn side u) index
        * x ((c.region side).firstColumn u + Interface.nodeOf side pair)).sum := by
  rw [derivatives, sum_filterMap]
  refine congrArg List.sum (List.map_congr_left fun u member => ?_)
  obtain ⟨equation, start, solves, slot⟩ := Region.exists_firstRow?_of_mem_variableNames member
  rw [derivative?, Region.firstColumn, solves, Option.bind_some, slot, Option.bind_some, Option.getD_some]
  split
  · rfl
  next absent =>
    rw [Coupled.valueAt, Coupled.values_of_missing (Bool.eq_false_iff.mpr absent)]
    simp

def rename (f : String → String) (e : InterfaceEquation) : InterfaceEquation :=
  { e with model := f e.model }

end InterfaceEquation

/-- The second interface has the directional model of an equation under a new name, on the same pairs
and with the same rows and areas. -/
structure Coupled.Directed (c c' : Coupled β α) (e : InterfaceEquation) (measures : MeasureNames)
    (x : Nat → α) (f : String → String) : Prop where
  geometry : c'.junction.geometry = c.junction.geometry
  firstRow? : ∀ side, (c'.region side).firstRow? (e.sideName side) =
    (c.region side).firstRow? (e.sideName side)
  measured : ∀ side, e.coupling.usesArea side = true →
    (c'.region side).values .node measures.surfaceArea =
      (c.region side).values .node measures.surfaceArea
  directed : ∀ entry ∈ c.junction.geometry.pairs.zipIdx,
    c'.valueAt (f e.model) entry.2 = e.direction c x entry.2 entry.1

namespace InterfaceEquation

variable {e : InterfaceEquation} {c c' : Coupled β α} {measures : MeasureNames} {x : Nat → α}
  {f : String → String}

omit [ExactScalar α] [Scalar α] in
theorem mem_zipIdx_of_mem_pairRows {i : Interface} {mask : Array Bool} {start0 start1 : Nat}
    {p : PairRows} (member : p ∈ i.pairRows mask start0 start1) :
    ((p.node0, p.node1), p.index) ∈ i.pairs.zipIdx := by
  obtain ⟨entry, inMask, rfl⟩ := List.mem_map.mp member
  exact (List.mem_filter.mp inMask).1

theorem matrixAt_records (directed : c.Directed c' e measures x f) {mask : Array Bool}
    {start0 start1 : Nat} (row : Nat) :
    (e.records measures c (c.junction.geometry.pairRows mask start0 start1) .matrix).matrixAt x row =
      ((e.rename f).records measures c' (c'.junction.geometry.pairRows mask start0 start1)
        .residual).residualAt row := by
  have areas : (e.rename f).areaOf measures c' = e.areaOf measures c := by
    funext side
    unfold areaOf
    split
    next used => exact (directed.measured side used).trans (if_pos used).symm
    next unused => exact (if_neg unused).symm
  have matrix := matrixAt_pairs x row (c.junction.geometry.pairRows mask start0 start1) e.coupling
    (e.areaOf measures c .first) (e.areaOf measures c .second) c.values
    (e.derivatives c .first ++ e.derivatives c .second)
  have residual := residualAt_pairs row (c'.junction.geometry.pairRows mask start0 start1) e.coupling
    ((e.rename f).areaOf measures c' .first) ((e.rename f).areaOf measures c' .second)
    (c'.values (f e.model))
  refine matrix.trans (Eq.trans ?_ residual.symm)
  rw [directed.geometry, areas]
  refine congrArg List.sum (List.map_congr_left fun p member => ?_)
  have here := directed.directed _ (mem_zipIdx_of_mem_pairRows member)
  have node : ∀ side, p.node side = Interface.nodeOf side (p.node0, p.node1) := by
    intro side
    cases side <;> rfl
  rw [Coupled.valueAt] at here
  rw [here, direction, List.map_append, List.sum_append]
  simp only [Side.both, List.map_cons, List.map_nil, List.sum_cons, List.sum_nil, add_zero, node,
    ← sum_derivatives]
  rfl

/-- The matrix pass of an interface equation is the linearisation of its residual pass. -/
theorem linearises [BaseScalar β] (e : InterfaceEquation) {mask : Array Bool}
    {settings : Settings β} {time : TimeMode} {s s' t t' : PassState (Coupled β α) α}
    (complete : e.Complete settings.measures s.owner)
    (complete' : (e.rename f).Complete settings.measures t.owner)
    (matrix : e.assemble mask settings .matrix time s = (.ok (), s'))
    (residual : (e.rename f).assemble mask settings .residual time t = (.ok (), t'))
    (directed : s'.owner.Directed t'.owner e settings.measures x f) : Linearises x s s' t t' := by
  obtain ⟨later, _, out, wrote⟩ := (e.writes_assemble (by simp)).appended matrix
  obtain ⟨later', _, out', wrote'⟩ := ((e.rename f).writes_assemble (by simp)).appended residual
  cases time with
  | transient =>
    subst wrote wrote'
    exact ⟨_, _, out, out', fun _ => rfl⟩
  | steady =>
    have still : ∀ {e : InterfaceEquation} {c c' : Coupled β α}, Owner.Later c c' →
        e.Complete settings.measures c → e.Complete settings.measures c' := by
      intro e c c' later ⟨model, areas⟩
      refine ⟨Coupled.contains_of_later later ▸ model, fun side used => ?_⟩
      exact Term.contains_of_later (later.regions side) ▸ areas side used
    obtain ⟨start0, start1, slot0, slot1, wrote, -⟩ := wrote
    obtain ⟨start0', start1', slot0', slot1', wrote', -⟩ := wrote'
    obtain rfl := wrote (still later complete)
    obtain rfl := wrote' (still later' complete')
    obtain rfl : start0' = start0 := by
      exact Option.some.inj (slot0'.symm.trans ((directed.firstRow? .first).trans slot0))
    obtain rfl : start1' = start1 := by
      exact Option.some.inj (slot1'.symm.trans ((directed.firstRow? .second).trans slot1))
    exact ⟨_, _, out, out', matrixAt_records directed⟩

end InterfaceEquation

/-- The matrix pass of every bulk, contact and interface equation is the linearisation of its residual
pass: on every row, the matrix records, each times the number for its column, sum to the residual of
the same equation over the directional models. A region may be `Ready` in any state of its caches; an
interface is looked at as the passes leave it. -/
theorem matrix_linearises_residual [BaseScalar β] (settings : Settings β) (time : TimeMode)
    (x : Nat → α) (f : String → String) :
    (∀ (e : BulkEquation β) (s s' t t' : PassState (Region β α) α),
      s.owner.Ready → t.owner.Ready →
      s.owner.Directed t.owner settings.measures x none f
        (e.models.integrands settings.measures s.owner.mesh.elementDomain time) →
      e.assemble settings .matrix time s = (.ok (), s') →
      (e.rename f).assemble settings .residual time t = (.ok (), t') →
      Linearises x s s' t t') ∧
    (∀ (e : ContactEquation β) (mask : Array Bool) (circuit : Circuit β)
      (s s' t t' : PassState (Region β α) α), s.owner.Ready → t.owner.Ready →
      s.owner.Directed t.owner settings.measures x (e.column? circuit) f
        (e.integrands settings.measures s.owner.mesh.elementDomain time (e.column? circuit)) →
      e.assemble mask circuit settings .matrix time s = (.ok (), s') →
      (e.rename f).assemble mask circuit settings .residual time t = (.ok (), t') →
      Linearises x s s' t t') ∧
    ∀ (e : InterfaceEquation) (mask : Array Bool) (s s' t t' : PassState (Coupled β α) α),
      e.Complete settings.measures s.owner → (e.rename f).Complete settings.measures t.owner →
      e.assemble mask settings .matrix time s = (.ok (), s') →
      (e.rename f).assemble mask settings .residual time t = (.ok (), t') →
      s'.owner.Directed t'.owner e settings.measures x f → Linearises x s s' t t' :=
  ⟨fun e _ _ _ _ ready ready' directed => e.linearises ready ready' directed,
    fun e _ _ _ _ _ _ ready ready' directed => e.linearises ready ready' directed,
    fun e _ _ _ _ _ complete complete' matrix residual =>
      e.linearises complete complete' matrix residual⟩

/-- A triangle with a node and an element model, a contact with a circuit node, and the triangle
coupled to another one. -/
theorem matrix_linearises_residual_on_triangles :
    let x : Nat → ℚ := fun n => n + 1
    let f : String → String := ("along " ++ ·)
    let mesh : Mesh ℚ := ⟨.triangle, #[⟨0, 0, 0⟩, ⟨1, 0, 0⟩, ⟨0, 1, 0⟩], #[⟨1, 2⟩, ⟨0, 2⟩, ⟨0, 1⟩],
      #[⟨[0, 1, 2], [0, 1, 2]⟩]⟩
    let start : Region ℚ ℚ := (Region.create 0 "device" "region" mesh {}).run
      [.addEquation "flow" "v", .setUniform .node "NodeVolume" 2,
        .setUniform .node "SurfaceArea" 7, .setUniform .triangleEdge "ElementEdgeCouple" 5]
    let r : Region ℚ ℚ := start.run [.setData .node "N:v" (.vector #[1, 2, 3]),
      .setUniform .node "N:wire" 10, .setData .triangleEdge "G:v@en0" (.vector #[1, 10, 100]),
      .setUniform .triangleEdge "G:v@en1" 2, .setUniform .triangleEdge "G:v@en2" 3]
    let r₁ : Region ℚ ℚ := start.run [.setData .node "along N" (.vector #[1, 4, 9]),
      .setData .triangleEdge "along G" (.vector #[11, 22, 113])]
    let r₂ : Region ℚ ℚ := start.run [.setData .node "along N" (.vector #[41, 44, 49])]
    let bulk : BulkEquation ℚ := { name := "flow", variableName := "v", models :=
      { node := "N", element := "G" } }
    let contact : ContactEquation ℚ := { name := "flow", contact := "end", circuitNode := "wire", models :=
      { node := "N", current := { node := "N" } } }
    let circuit : Circuit ℚ := ({ base := 3 } : Circuit ℚ).add "wire" 0
    let geometry : Interface := ⟨"seam", "region", "other", [(0, 1), (2, 0)]⟩
    let joined (models : ModelStore ℚ ℚ) : Coupled ℚ ℚ :=
      ⟨{ device := "device", geometry, models }, r, { r with instanceId := 1, base := 3 }⟩
    let c := joined (((({} : ModelStore ℚ ℚ).write .node "M" (.uniform 1 2)).write .node "M:v@r0"
      (.uniform 2 2)).write .node "M:v@r1" (.uniform 3 2))
    let c' := joined (({} : ModelStore ℚ ℚ).write .node "along M" (.vector #[17, 18]))
    let seam : InterfaceEquation := ⟨"seam", "flow", "flow", "M", .flux⟩
    Linearises x { owner := r } (bulk.assemble {} .matrix .steady { owner := r }).2
      { owner := r₁ } ((bulk.rename f).assemble {} .residual .steady { owner := r₁ }).2 ∧
    Linearises x { owner := r }
      (contact.assemble #[true, false, true] circuit {} .matrix .steady { owner := r }).2
      { owner := r₂ } ((contact.rename f).assemble #[true, false, true] circuit {} .residual .steady
        { owner := r₂ }).2 ∧
    Linearises x { owner := c } (seam.assemble #[true, true] {} .matrix .steady { owner := c }).2
      { owner := c' } ((seam.rename f).assemble #[true, true] {} .residual .steady
        { owner := c' }).2 := by
  intro x f mesh start r r₁ r₂ bulk contact circuit geometry joined c c' seam
  obtain ⟨onBulk, onContact, onInterface⟩ := matrix_linearises_residual (β := ℚ) {} .steady x f
  have ready : r.Ready := (((Region.Settled.create ..).run _).run _).ready
  have ready₁ : r₁.Ready := (((Region.Settled.create ..).run _).run _).ready
  have ready₂ : r₂.Ready := (((Region.Settled.create ..).run _).run _).ready
  have follows : start.Follows r := start.follows_run _
  have follows₁ : start.Follows r₁ := start.follows_run _
  have follows₂ : start.Follows r₂ := start.follows_run _
  have layout : r.layoutRevision = start.layoutRevision ∧ r₁.layoutRevision = start.layoutRevision ∧
      r₂.layoutRevision = start.layoutRevision := by decide +kernel
  have passes : (bulk.assemble {} .matrix .steady { owner := r }).1 = .ok () ∧
      ((bulk.rename f).assemble {} .residual .steady { owner := r₁ }).1 = .ok () ∧
      (contact.assemble #[true, false, true] circuit {} .matrix .steady { owner := r }).1 = .ok () ∧
      ((contact.rename f).assemble #[true, false, true] circuit {} .residual .steady
        { owner := r₂ }).1 = .ok () := by decide +kernel
  have coupled : (seam.assemble #[true, true] {} .matrix .steady { owner := c }).1 = .ok () ∧
      ((seam.rename f).assemble #[true, true] {} .residual .steady { owner := c' }).1 = .ok () := by
    decide +kernel
  have measured : (∀ i ∈ bulk.models.integrands {} r.mesh.elementDomain .steady,
      r₁.values i.domain (i.measure {}) = r.values i.domain (i.measure {})) ∧
      ∀ i ∈ contact.integrands {} r.mesh.elementDomain .steady (contact.column? circuit),
        r₂.values i.domain (i.measure {}) = r.values i.domain (i.measure {}) := by decide +kernel
  have along : (∀ i ∈ bulk.models.integrands {} r.mesh.elementDomain .steady,
      ∀ k < r.size i.domain, r₁.valueAt i.domain (f i.model) k = i.direction r x none k) ∧
      ∀ i ∈ contact.integrands {} r.mesh.elementDomain .steady (contact.column? circuit),
        ∀ k < r.size i.domain, r₂.valueAt i.domain (f i.model) k =
          i.direction r x (contact.column? circuit) k := by decide +kernel
  have complete : ∀ side, c.junction.models.contains .node seam.model = true ∧
      c'.junction.models.contains .node (f seam.model) = true ∧
      (c.region side).models.contains .node "SurfaceArea" = true ∧
      (c'.region side).models.contains .node "SurfaceArea" = true := by
    intro side
    cases side <;> decide +kernel
  have seamed : Coupled.Directed (seam.assemble #[true, true] {} .matrix .steady { owner := c }).2.owner
      ((seam.rename f).assemble #[true, true] {} .residual .steady { owner := c' }).2.owner seam {}
      x f := {
    geometry := by decide +kernel
    firstRow? := fun side => by cases side <;> decide +kernel
    measured := fun side => by cases side <;> decide +kernel
    directed := by decide +kernel }
  clear_value c c' r r₁ r₂ start
  have bare₁ : r₁.bare = r.bare := by
    rw [follows₁.unchanged layout.2.1, follows.unchanged layout.1]
  have bare₂ : r₂.bare = r.bare := by
    rw [follows₂.unchanged layout.2.2, follows.unchanged layout.1]
  refine ⟨onBulk bulk _ _ _ _ ready ready₁ ?_ (Prod.ext passes.1 rfl) (Prod.ext passes.2.1 rfl),
    onContact contact _ circuit _ _ _ _ ready ready₂ ?_ (Prod.ext passes.2.2.1 rfl)
      (Prod.ext passes.2.2.2 rfl),
    onInterface seam _ _ _ _ _ ⟨(complete .first).1, fun side _ => (complete side).2.2.1⟩
      ⟨(complete .first).2.1, fun side _ => (complete side).2.2.2⟩ (Prod.ext coupled.1 rfl)
      (Prod.ext coupled.2 rfl) seamed⟩
  · exact ⟨Region.eq_of_bare_eq (f := Region.mesh) (fun _ => rfl) bare₁,
      Region.eq_of_bare_eq (f := Region.firstRow?) (fun _ => rfl) bare₁, measured.1, along.1⟩
  · exact ⟨Region.eq_of_bare_eq (f := Region.mesh) (fun _ => rfl) bare₂,
      Region.eq_of_bare_eq (f := Region.firstRow?) (fun _ => rfl) bare₂, measured.2, along.2⟩

end FiniteVolume
