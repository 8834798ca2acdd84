import FiniteVolume.Assembly.Term
import FiniteVolume.Proofs.Model.Values

/-!
What a term assembles, as a function of the values that it reads.

A term integrates a node model or a flux. `Integrand.records` lists its records from the values of the
models of a region, without reading anything; `Integrand.writes` says that a term which succeeds
appends exactly these, with the values of the region that it leaves.
-/
namespace FiniteVolume

variable {β α : Type}

/-- A node model integrated over node volumes, or a flux integrated over its measure. -/
inductive Integrand where
  | node (model : String)
  | flux (f : Flux)
  deriving DecidableEq

section

variable [Scalar α]

def residualRecords (contributions : List (Contribution α)) : List (ResidualRecord α) :=
  contributions.map fun c => ⟨c.row, c.value⟩

/-- Contributions as matrix records, in the columns of the corners of a given number. -/
def cornerRecords (start corner : Nat) (contributions : List (Contribution α)) :
    List (MatrixRecord α) :=
  contributions.filterMap fun c => c.corners[corner]?.map fun node => ⟨c.row, start + node, c.value⟩

def columnRecords (column : Nat) (contributions : List (Contribution α)) : List (MatrixRecord α) :=
  contributions.map fun c => ⟨c.row, column, c.value⟩

/-- First row of the equation that solves for a variable, zero if there is none. -/
def Region.firstColumn (r : Region β α) (variableName : String) : Nat :=
  ((r.equationFor? variableName).bind r.firstRow?).getD 0

def weigh (measure values : Array α) : Array α := Array.zipWith (· * ·) measure values

@[simp] theorem weigh_empty_left (values : Array α) : weigh #[] values = #[] := by simp [weigh]

@[simp] theorem weigh_empty_right (measure : Array α) : weigh measure #[] = #[] := by simp [weigh]

theorem size_weigh_le (measure values : Array α) : (weigh measure values).size ≤ measure.size := by
  rw [weigh, Array.size_zipWith]
  exact Nat.min_le_left ..

end

namespace Integrand

def model : Integrand → String
  | node model => model
  | flux f => f.model

def domain : Integrand → Domain
  | node _ => .node
  | flux f => f.domain

def measure (measures : MeasureNames) : Integrand → String
  | node _ => measures.nodeVolume
  | flux f => f.measure

/-- The derivatives with respect to a variable, one for every corner of an entity. -/
def derivativeNames (i : Integrand) (variableName : String) : List String :=
  match i with
  | node model => [derivativeName model variableName]
  | flux f => f.domain.cornerSuffixes.map (·.apply (derivativeName f.model variableName))

variable [BaseScalar β] [Scalar α]

def step (i : Integrand) (site : Site β) (rows : Rows) (circuit : Option CircuitColumn)
    (select : Selector) : RegionPass β α Unit :=
  match i with
  | node model => Term.node site rows circuit select model
  | flux f => Term.flux site rows circuit select f

omit [BaseScalar β] in
def contributions (i : Integrand) (mesh : Mesh β) (rows : Rows) (values : Array α) :
    List (Contribution α) :=
  match i with
  | node _ => atNodes rows values
  | flux f => scatter (mesh.stencil f.domain) f.ends rows values

section

omit [BaseScalar β]

variable (i : Integrand) (rows : Rows) (r : Region β α) (measure : Array α)

def derivative (variableName : String) : List (MatrixRecord α) :=
  (i.derivativeNames variableName).zipIdx.flatMap fun (name, corner) =>
    cornerRecords (r.firstColumn variableName) corner
      (i.contributions r.mesh rows (weigh measure (r.values i.domain name)))

def circuitDerivative (circuit : CircuitColumn) : List (MatrixRecord α) :=
  columnRecords circuit.column (i.contributions r.mesh rows
    (weigh measure (r.values i.domain (derivativeName i.model circuit.name))))

def residual : List (ResidualRecord α) :=
  residualRecords (i.contributions r.mesh rows (weigh measure (r.values i.domain i.model)))

def matrix (circuit : Option CircuitColumn) : List (MatrixRecord α) :=
  r.variableNames.flatMap (i.derivative rows r measure)
    ++ circuit.toList.flatMap (i.circuitDerivative rows r measure)

def records (circuit : Option CircuitColumn) (select : Selector) : Records α where
  matrix := if select.wantsMatrix then i.matrix rows r measure circuit else []
  residual := if select.wantsResidual then i.residual rows r measure else []

theorem contributions_empty {mesh : Mesh β} : i.contributions mesh rows (#[] : Array α) = [] := by
  cases i <;> simp [contributions, atNodes, scatter]

theorem records_empty (circuit : Option CircuitColumn) (select : Selector) :
    i.records rows r #[] circuit select = {} := by
  simp [records, matrix, derivative, circuitDerivative, residual, contributions_empty, residualRecords,
    cornerRecords, columnRecords]

end

end Integrand

/-! ## Steps of terms -/

namespace Term

open Pass

variable [BaseScalar β] [Scalar α] {r o : Region β α} (site : Site β) (d : Domain) (name : String)

section

omit [BaseScalar β]

variable (later : Owner.Later r o)

include later

theorem mesh_of_later : r.mesh = o.mesh :=
  (Region.eq_of_uncached_eq (f := Region.mesh) (fun _ => rfl) later.progress.declared).symm

theorem variableNames_of_later : r.variableNames = o.variableNames :=
  (Region.eq_of_uncached_eq (f := Region.variableNames) (fun _ => rfl) later.progress.declared).symm

theorem firstRow?_of_later : r.firstRow? = o.firstRow? :=
  (Region.eq_of_uncached_eq (f := Region.firstRow?) (fun _ => rfl) later.progress.declared).symm

theorem equationFor?_of_later : r.equationFor? = o.equationFor? :=
  (Region.eq_of_uncached_eq (f := Region.equationFor?) (fun _ => rfl) later.progress.declared).symm

theorem contains_of_later : r.models.contains = o.models.contains :=
  (Region.contains_of_uncached_eq later.progress.declared).symm

end

theorem writes_missing (severity : Severity) :
    Writes (missing site d name severity : RegionPass β α Unit) fun _ _ records => records = {} := by
  unfold missing
  refine (Writes.report ..).bind_nothing fun _ => ?_
  split
  · exact (Writes.throw _).mono fun _ _ _ => False.elim
  · exact Writes.skip

theorem writes_fetch : Writes (fetch site d name : RegionPass β α (Field α))
    fun data o records => records = {} ∧ o.values d name = data.toArray := by
  refine ⟨fun s => ?_⟩
  have leads : Owner.Later s.owner (s.owner.read d name).2.takeNotes.2 :=
    Owner.trans (Region.leads_read s.owner d name) (Region.leads_takeNotes _)
  refine ⟨rfl, leads, fun data ran => ⟨{}, (Records.append_empty _).symm, fun o later => ?_⟩⟩
  have returned : (s.owner.read d name).1 = .ok data := by
    change (s.owner.read d name).1.mapError _ = _ at ran
    cases result : (s.owner.read d name).1 with
    | ok data' =>
      rw [result] at ran
      exact congrArg Except.ok (Except.ok.inj ran)
    | error e =>
      rw [result] at ran
      cases ran
  refine ⟨rfl, Region.values_of_atHand (later.progress.atHand ?_)⟩
  exact (Region.progress_takeNotes _).atHand (Region.atHand_of_read returned)

/-- The values that were found, none if the model is missing. -/
def valuesOf (found : Option (Field α)) : Array α := found.elim #[] Field.toArray

theorem writes_optional_declared :
    Writes (optional site d name : RegionPass β α (Option (Field α)))
      fun found o records => records = {} ∧ o.values d name = valuesOf found ∧
        found.isSome = o.models.contains d name := by
  unfold optional
  refine Writes.bind_get (q := fun s found o records => Owner.Later s.owner o → records = {} ∧
    o.values d name = valuesOf found ∧ found.isSome = o.models.contains d name) (fun s => ?_)
    fun s found o records later holds => holds later
  split
  next present =>
    refine (writes_fetch site d name).bind_pure fun data o records ⟨nothing, held⟩ later => ?_
    exact ⟨nothing, held, by rw [← contains_of_later later, present]; rfl⟩
  next absent =>
    refine (Writes.pure none).mono fun found o records ⟨same, nothing⟩ later => ⟨nothing, ?_⟩
    rw [contains_of_later later, Bool.not_eq_true] at absent
    rw [same, absent]
    exact ⟨Region.values_of_missing absent, rfl⟩

theorem writes_required_declared :
    Writes (required site d name : RegionPass β α (Option (Field α)))
      fun found o records => records = {} ∧ o.values d name = valuesOf found ∧
        found.isSome = o.models.contains d name := by
  unfold required
  refine (writes_optional_declared site d name).bind_lookup (q := fun found found' o records =>
    records = {} ∧ found' = found) (fun found => ?_) ?_
  · cases found with
    | some data => exact (Writes.pure _).mono fun _ _ _ => And.symm
    | none =>
      exact (writes_missing site d name _).bind_pure fun _ _ _ nothing => ⟨nothing, rfl⟩
  · rintro found _ o _ held ⟨rfl, rfl⟩
    exact ⟨rfl, held⟩

theorem writes_optional : Writes (optional site d name : RegionPass β α (Option (Field α)))
    fun found o records => records = {} ∧ o.values d name = valuesOf found :=
  (writes_optional_declared site d name).mono fun _ _ _ found => ⟨found.1, found.2.1⟩

theorem writes_required : Writes (required site d name : RegionPass β α (Option (Field α)))
    fun found o records => records = {} ∧ o.values d name = valuesOf found :=
  (writes_required_declared site d name).mono fun _ _ _ found => ⟨found.1, found.2.1⟩

theorem writes_firstColumn (variableName : String) :
    Writes (firstColumn site variableName : RegionPass β α Nat)
      fun start o records => records = {} ∧ start = o.firstColumn variableName := by
  unfold firstColumn
  refine Writes.bind_get (q := fun s start _ records => records = {} ∧
    start = s.owner.firstColumn variableName) (fun s => ?_) ?_
  · dsimp only
    split
    next start found =>
      refine (Writes.pure start).mono fun _ _ _ ⟨same, nothing⟩ => ⟨nothing, ?_⟩
      rw [same, Region.firstColumn, found, Option.getD_some]
    · exact (Writes.report ..).bind_nothing fun _ =>
        (Writes.throw _).mono fun _ _ _ => False.elim
  · intro s start o records later ⟨nothing, same⟩
    refine ⟨nothing, ?_⟩
    rw [same, Region.firstColumn, Region.firstColumn, equationFor?_of_later later,
      firstRow?_of_later later]

theorem writes_weighted (measure values : Field α) :
    Writes (weighted site measure values name : RegionPass β α (Array α))
      fun weights _ records => records = {} ∧ weights = weigh measure.toArray values.toArray := by
  unfold weighted
  split
  next data product =>
    refine (Writes.pure _).mono fun _ _ _ ⟨same, nothing⟩ => ⟨nothing, ?_⟩
    rw [same, Field.toArray_of_mul product, weigh]
  · exact (Writes.throw _).mono fun _ _ _ => False.elim

omit [BaseScalar β] in
theorem writes_spread (f : Flux) (rows : Rows) (values : Array α) :
    Writes (spread f rows values : RegionPass β α (List (Contribution α)))
      fun c o records => records = {} ∧ c = (Integrand.flux f).contributions o.mesh rows values := by
  refine Writes.get.bind_pure fun s o records ⟨later, nothing⟩ => ⟨nothing, ?_⟩
  rw [mesh_of_later later]
  rfl

/-! ## Matrix entries -/

section

variable {site} (rows : Rows)

theorem writes_weighted_then {name : String} {measure values : Field α}
    {next : Array α → RegionPass β α Unit} {g : Region β α → Array α → Records α}
    (writes : ∀ w, Writes (next w) fun _ o records => records = g o w) :
    Writes (weighted site measure values name >>= next)
      fun _ o records => records = g o (weigh measure.toArray values.toArray) := by
  refine (writes_weighted site name measure values).bind_lookup writes ?_
  rintro _ _ o _ rfl rfl
  rfl

omit [BaseScalar β] in
/-- Spread weights over rows and append what becomes of them. -/
theorem writes_spread_then {f : Flux} {values : Array α}
    {next : List (Contribution α) → RegionPass β α Unit}
    {g : Region β α → List (Contribution α) → Records α}
    (writes : ∀ c, Writes (next c) fun _ o records => records = g o c) :
    Writes (spread f rows values >>= next)
      fun _ o records => records = g o ((Integrand.flux f).contributions o.mesh rows values) := by
  refine (writes_spread f rows values).bind_lookup writes ?_
  rintro _ _ o _ rfl rfl
  rfl

variable (site)

theorem writes_nodeDerivative (volume : Field α) (model variableName : String) :
    Writes (nodeDerivative site rows volume model variableName : RegionPass β α Unit)
      fun _ o records => records =
        ⟨(Integrand.node model).derivative rows o volume.toArray variableName, []⟩ := by
  unfold nodeDerivative
  dsimp only
  refine (writes_optional site .node _).bind_lookup (q := fun found _ o records => records =
    ⟨cornerRecords (o.firstColumn variableName) 0
      (atNodes rows (weigh volume.toArray (valuesOf found))), []⟩) (fun found => ?_) ?_
  · cases found with
    | none =>
      refine (writes_missing ..).mono fun _ _ _ nothing => ?_
      simp [nothing, valuesOf, atNodes, cornerRecords]
    | some data =>
      refine (writes_firstColumn site variableName).bind_lookup (fun start => writes_weighted_then
        (g := fun _ w => ⟨cornerRecords start 0 (atNodes rows w), []⟩) fun w =>
          Writes.addMatrix _) ?_
      rintro _ _ o _ rfl rfl
      rfl
  · rintro found _ o _ held rfl
    rw [← held]
    simp [Integrand.derivative, Integrand.derivativeNames, Integrand.contributions, Integrand.domain]

theorem writes_nodeCircuit (volume : Field α) (model : String) (circuit : CircuitColumn) :
    Writes (nodeCircuit site rows volume model circuit : RegionPass β α Unit)
      fun _ o records => records =
        ⟨(Integrand.node model).circuitDerivative rows o volume.toArray circuit, []⟩ := by
  unfold nodeCircuit
  dsimp only
  refine (writes_optional site .node _).bind_lookup (q := fun found _ _ records => records =
    ⟨columnRecords circuit.column (atNodes rows (weigh volume.toArray (valuesOf found))), []⟩)
    (fun found => ?_) ?_
  · cases found with
    | none =>
      refine Writes.skip.mono fun _ _ _ nothing => ?_
      simp [nothing, valuesOf, atNodes, columnRecords]
    | some data =>
      exact writes_weighted_then
        (g := fun _ w => ⟨columnRecords circuit.column (atNodes rows w), []⟩)
        fun w => Writes.addMatrix _
  · rintro found _ o _ held rfl
    rw [← held]
    rfl

omit [BaseScalar β] [Scalar α] in
/-- Corner by corner, only the values that were found matter. -/
theorem flatMap_zip_found {held : String → Array α} {names : List String}
    {found : List (Option (Field α))}
    (all : List.Forall₂ (fun name d => held name = valuesOf d) names found)
    (g : Array α → Nat → List (MatrixRecord α)) (k : Nat) :
    ((names.zip found).zipIdx k).flatMap (fun x => g (valuesOf x.1.2) x.2) =
      (names.zipIdx k).flatMap fun x => g (held x.1) x.2 := by
  induction all generalizing k with
  | nil => rfl
  | cons here rest ih => simp [ih, here]

/-- The entries of a flux from given values of a derivative, in the columns of a corner. -/
def fluxEntries (measure : Field α) (f : Flux) (start corner : Nat) (o : Region β α)
    (values : Array α) : List (MatrixRecord α) :=
  cornerRecords start corner
    ((Integrand.flux f).contributions o.mesh rows (weigh measure.toArray values))

omit [BaseScalar β] in
theorem fluxEntries_empty (measure : Field α) (f : Flux) (start corner : Nat) (o : Region β α) :
    fluxEntries rows measure f start corner o #[] = [] := by
  simp [fluxEntries, Integrand.contributions_empty, cornerRecords]

theorem writes_fluxDerivative (measure : Field α) (f : Flux) (variableName : String) :
    Writes (fluxDerivative site rows measure f variableName : RegionPass β α Unit)
      fun _ o records => records =
        ⟨(Integrand.flux f).derivative rows o measure.toArray variableName, []⟩ := by
  unfold fluxDerivative
  dsimp only
  set names := f.domain.cornerSuffixes.map (·.apply (derivativeName f.model variableName))
  refine (Writes.mapM fun name _ => writes_optional site f.domain name).bind_lookup
    (q := fun found _ o records => records = ⟨(names.zip found).zipIdx.flatMap fun x =>
      fluxEntries rows measure f (o.firstColumn variableName) x.2 o (valuesOf x.1.2), []⟩)
    (fun found => ?_) ?_
  · split
    next missing =>
      -- No derivative at all is one report, and nothing to append.
      refine (writes_missing ..).mono fun _ o _ none => ?_
      rw [none, Records.mk.injEq, eq_comm, List.flatMap_eq_nil_iff]
      refine ⟨fun x member => ?_, rfl⟩
      have absent := List.all_eq_true.mp missing x.1.2
        (List.of_mem_zip (List.fst_mem_of_mem_zipIdx member)).2
      rw [Option.isNone_iff_eq_none.mp absent]
      exact fluxEntries_empty ..
    · -- Otherwise each missing derivative is reported, and its corner has no entries.
      have reported : Writes ((names.zip found).forM fun x =>
          if x.2.isNone then missing site f.domain x.1 site.settings.missingModel else return)
          fun _ (_ : Region β α) records => records = {} := by
        refine Writes.forM_nothing fun x _ => ?_
        split
        · exact writes_missing ..
        · exact Writes.skip
      refine reported.bind_nothing fun _ => (writes_firstColumn site variableName).bind_lookup
        (q := fun start _ o records => records = ⟨(names.zip found).zipIdx.flatMap fun x =>
          fluxEntries rows measure f start x.2 o (valuesOf x.1.2), []⟩)
        (fun start => Writes.forM_matrix fun x _ => ?_) ?_
      · obtain ⟨⟨name, d⟩, corner⟩ := x
        cases d with
        | none =>
          refine Writes.skip.mono fun _ o _ empty => ?_
          rw [empty]
          exact congrArg (Records.mk · []) (fluxEntries_empty rows measure f start corner o).symm
        | some d =>
          exact writes_weighted_then fun w => writes_spread_then rows fun c => Writes.addMatrix _
      rintro _ _ o _ rfl rfl
      rfl
  · rintro found _ o _ all rfl
    rw [flatMap_zip_found all (fun values corner => fluxEntries rows measure f _ corner o values) 0]
    rfl

theorem writes_fluxCircuit (measure : Field α) (f : Flux) (circuit : CircuitColumn) :
    Writes (fluxCircuit site rows measure f circuit : RegionPass β α Unit)
      fun _ o records => records =
        ⟨(Integrand.flux f).circuitDerivative rows o measure.toArray circuit, []⟩ := by
  unfold fluxCircuit
  dsimp only
  refine (writes_optional site f.domain _).bind_lookup (q := fun found _ o records => records =
    ⟨columnRecords circuit.column ((Integrand.flux f).contributions o.mesh rows
      (weigh measure.toArray (valuesOf found))), []⟩) (fun found => ?_) ?_
  · cases found with
    | none =>
      refine (writes_missing ..).mono fun _ _ _ nothing => ?_
      simp [nothing, valuesOf, Integrand.contributions_empty, columnRecords]
    | some data =>
      exact writes_weighted_then fun w => writes_spread_then rows fun c => Writes.addMatrix _
  · rintro found _ o _ held rfl
    rw [← held]
    rfl

end

/-! ## Terms -/

section

variable {site} (rows : Rows) (circuit : Option CircuitColumn) (select : Selector)

omit [BaseScalar β] in
/-- The matrix entries of a term, from those for one solution variable and one circuit node. -/
theorem writes_matrix (i : Integrand) (measure : Array α)
    {variableEntries : String → RegionPass β α Unit}
    {circuitEntries : CircuitColumn → RegionPass β α Unit}
    (byVariable : ∀ v, Writes (variableEntries v)
      fun _ o records => records = ⟨i.derivative rows o measure v, []⟩)
    (byCircuit : ∀ c, Writes (circuitEntries c)
      fun _ o records => records = ⟨i.circuitDerivative rows o measure c, []⟩) :
    Writes (if select.wantsMatrix then do
        (← get).owner.variableNames.forM variableEntries
        circuit.toList.forM circuitEntries
      else return)
      fun _ (o : Region β α) records =>
        records = ⟨if select.wantsMatrix then i.matrix rows o measure circuit else [], []⟩ := by
  split
  · let all (s : PassState (Region β α) α) (o : Region β α) : Records α :=
      ⟨s.owner.variableNames.flatMap (i.derivative rows o measure)
        ++ circuit.toList.flatMap (i.circuitDerivative rows o measure), []⟩
    refine Writes.bind_get (q := fun s _ o records => records = all s o) (fun s => ?_) ?_
    · refine (Writes.forM_matrix fun v _ => byVariable v).bind
        (fun _ => Writes.forM_matrix fun c _ => byCircuit c) ?_
      rintro _ _ o _ _ rfl rfl
      rfl
    · rintro s _ o _ later rfl
      simp only [all, variableNames_of_later later]
      rfl
  · exact Writes.skip

def matrixAnd (i : Integrand) (measure : Array α) (o : Region β α)
    (contributions : List (Contribution α)) : Records α :=
  ⟨if select.wantsMatrix then i.matrix rows o measure circuit else [],
    residualRecords contributions⟩

variable {rows circuit select}

omit [BaseScalar β] in
theorem writes_intoResidual_then {contributions : List (Contribution α)}
    {next : Unit → RegionPass β α Unit} {matrix : Region β α → List (MatrixRecord α)}
    (writes : Writes (next ()) fun _ o records => records = ⟨matrix o, []⟩) :
    Writes (intoResidual contributions >>= next)
      fun _ o records => records = ⟨matrix o, residualRecords contributions⟩ := by
  refine (Writes.addResidual _).bind (fun _ => writes) ?_
  rintro _ _ o _ _ rfl rfl
  simp [Records.append, residualRecords]

/-- Read the model of a term and append what becomes of its values. -/
theorem writes_model_then {i : Integrand} {measure : Array α}
    {next : Option (Field α) → RegionPass β α Unit} (wanted : select.wantsResidual = true)
    (writes : ∀ values, Writes (next (some values))
      fun _ o records => records = matrixAnd rows circuit select i measure o
        (i.contributions o.mesh rows (weigh measure values.toArray)))
    (none : Writes (next none) fun _ (o : Region β α) records =>
      records = ⟨if select.wantsMatrix then i.matrix rows o measure circuit else [], []⟩) :
    Writes (required site i.domain i.model >>= next)
      fun _ o records => records = i.records rows o measure circuit select := by
  refine (writes_required ..).bind_lookup (q := fun found _ o records =>
    records = matrixAnd rows circuit select i measure o
      (i.contributions o.mesh rows (weigh measure (valuesOf found)))) (fun found => ?_) ?_
  · cases found with
    | none =>
      refine none.mono fun _ o _ matrix => ?_
      rw [matrix, matrixAnd, valuesOf, Option.elim, weigh_empty_right, i.contributions_empty]
      rfl
    | some values => exact writes values
  · rintro found _ o _ held rfl
    rw [← held, matrixAnd, Integrand.records, if_pos wanted]
    rfl

theorem writes_node (model : String) :
    Writes (node site rows circuit select model : RegionPass β α Unit) fun _ o records => records =
      (Integrand.node model).records rows o (o.values .node site.settings.measures.nodeVolume) circuit
        select := by
  unfold node
  refine (writes_required ..).bind_lookup (q := fun found _ o records => records =
    (Integrand.node model).records rows o (valuesOf found) circuit select) (fun found => ?_) ?_
  · cases found with
    | none =>
      refine Writes.skip.mono fun _ o _ nothing => ?_
      rw [nothing]
      exact ((Integrand.node model).records_empty rows o circuit select).symm
    | some volume =>
      have matrix := writes_matrix rows circuit select (.node model) volume.toArray
        (writes_nodeDerivative site rows volume model)
        (writes_nodeCircuit site rows volume model)
      dsimp only
      split
      next wanted =>
        exact writes_model_then (i := .node model) wanted (fun values => writes_weighted_then
          (g := fun o w => matrixAnd rows circuit select _ _ o (atNodes rows w))
          fun w => writes_intoResidual_then matrix) matrix
      next unwanted =>
        refine matrix.mono fun _ o _ same => ?_
        rw [same, Integrand.records, if_neg unwanted]
        rfl
  · rintro found _ o _ held rfl
    rw [← held]

theorem writes_flux (f : Flux) :
    Writes (flux site rows circuit select f : RegionPass β α Unit) fun _ o records => records =
      (Integrand.flux f).records rows o (o.values f.domain f.measure) circuit select := by
  unfold flux
  refine (writes_required ..).bind_lookup (q := fun found _ o records => records =
    (Integrand.flux f).records rows o (valuesOf found) circuit select) (fun found => ?_) ?_
  · cases found with
    | none =>
      refine Writes.skip.mono fun _ o _ nothing => ?_
      rw [nothing]
      exact ((Integrand.flux f).records_empty rows o circuit select).symm
    | some measure =>
      have matrix := writes_matrix rows circuit select (.flux f) measure.toArray
        (writes_fluxDerivative site rows measure f)
        (writes_fluxCircuit site rows measure f)
      dsimp only
      split
      next wanted =>
        exact writes_model_then (i := .flux f) wanted (fun values => writes_weighted_then
          (g := fun o w => matrixAnd rows circuit select _ _ o
            ((Integrand.flux f).contributions o.mesh rows w))
          fun w => writes_spread_then rows (g := matrixAnd rows circuit select _ _)
            fun c => writes_intoResidual_then matrix) matrix
      next unwanted =>
        refine matrix.mono fun _ o _ same => ?_
        rw [same, Integrand.records, if_neg unwanted]
        rfl
  · rintro found _ o _ held rfl
    rw [← held]

end

end Term

namespace Integrand

variable [BaseScalar β] [Scalar α]

/-- A term appends its records, with the values of the region that it leaves. -/
theorem writes (i : Integrand) {site : Site β} {rows : Rows} {circuit : Option CircuitColumn}
    {select : Selector} :
    (i.step site rows circuit select : RegionPass β α Unit).Writes fun _ o records =>
      records = i.records rows o (o.values i.domain (i.measure site.settings.measures)) circuit
        select := by
  cases i with
  | node model => exact Term.writes_node model
  | flux f => exact Term.writes_flux f

/-! ## Lists of terms -/

omit [BaseScalar β] in
/-- The records of terms on their rows, with the values of a region. -/
def assembled (measures : MeasureNames) (circuit : Option CircuitColumn) (select : Selector)
    (terms : List (Rows × Integrand)) (r : Region β α) : Records α :=
  .join (terms.map fun (rows, i) =>
    i.records rows r (r.values i.domain (i.measure measures)) circuit select)

section

variable {measures : MeasureNames} {site : Site β} {rows : Rows} {circuit : Option CircuitColumn}
  {select : Selector} {terms rest : List (Rows × Integrand)} {r : Region β α}

omit [BaseScalar β] in
theorem assembled_append : assembled measures circuit select (terms ++ rest) r =
    (assembled measures circuit select terms r).append (assembled measures circuit select rest r) := by
  rw [assembled, List.map_append, Records.join_append]
  rfl

theorem writes_nodes (models : List String) :
    (models.forM (Term.node site rows circuit select) : RegionPass β α Unit).Writes
      fun _ o records => records = assembled site.settings.measures circuit select
        (models.map fun m => (rows, node m)) o := by
  refine (Pass.Writes.forM fun m _ => (node m).writes).mono fun _ o records same => ?_
  rw [same, assembled, List.map_map]
  rfl

theorem writes_fluxes (fluxes : List Flux) :
    (fluxes.forM (Term.flux site rows circuit select) : RegionPass β α Unit).Writes
      fun _ o records => records = assembled site.settings.measures circuit select
        (fluxes.map fun f => (rows, flux f)) o := by
  refine (Pass.Writes.forM fun f _ => (flux f).writes).mono fun _ o records same => ?_
  rw [same, assembled, List.map_map]
  rfl

end

end Integrand

end FiniteVolume
