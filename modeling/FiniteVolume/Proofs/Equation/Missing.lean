import FiniteVolume.Proofs.Assembly.Amounts
import FiniteVolume.Proofs.Equation.Directional
import FiniteVolume.Proofs.Equation.Success

/-!
Missing models below fatal severity.

A term without its measure assembles nothing, one without its model no residual, and a missing
derivative takes its columns with it. All of this is what zeros in their place would give: a pass over a
region and a pass over the region with zeros (`Region.Completes`) succeed alike, and in exact arithmetic
their records amount to the same on every row and in every column (`missing_models_contribute_zero`).
-/
namespace FiniteVolume

variable {β α : Type}

/-! ## Amounts as sums of records -/

namespace Records

variable [Scalar α] [ExactScalar α] (r : Records α) (row : Nat)

theorem amount_residual : r.amount .residual row = r.residualAt row := by
  rw [amount_eq, onRow, listed, List.map_map]
  rfl

/-- The entries of a column are picked out by a number for each column. -/
theorem amount_column (column : Nat) :
    r.amount (.column column) row = r.matrixAt (fun n => if n = column then 1 else 0) row := by
  rw [amount_eq, onRow, listed, matrixAt]
  induction r.matrix with
  | nil => rfl
  | cons m rest ih =>
    rw [List.map_cons, List.sum_cons, ← ih]
    by_cases here : m.column = column <;> simp [here]

end Records

/-! ## Missing models as zeros -/

section

theorem Region.mesh_of_bare_eq {r r' : Region β α} (same : r'.bare = r.bare) : r'.mesh = r.mesh :=
  eq_of_bare_eq (f := Region.mesh) (fun _ => rfl) same

theorem Region.firstRow?_of_bare_eq {r r' : Region β α} (same : r'.bare = r.bare) :
    r'.firstRow? = r.firstRow? := eq_of_bare_eq (f := Region.firstRow?) (fun _ => rfl) same

variable [Scalar α]

/-- Of the given models, those that are declared can be read. -/
def Region.Readable (r : Region β α) (keys : List (Domain × String)) : Prop :=
  ∀ key ∈ keys, r.models.contains key.1 key.2 = true → ∃ data, (r.read key.1 key.2).1 = .ok data

/-- The second region is the first with zeros in the place of some models. Of the given models, those
that are declared are read as in the first, and those that are missing are zero or still missing. -/
structure Region.Completes (r r' : Region β α) (keys zeros : List (Domain × String)) : Prop where
  bare : r'.bare = r.bare
  declared : ∀ key ∈ keys, r.models.contains key.1 key.2 = true →
    (r'.read key.1 key.2).1 = (r.read key.1 key.2).1
  zero : ∀ key ∈ keys, r.models.contains key.1 key.2 = false → key ∈ zeros →
    (r'.read key.1 key.2).1 = .ok (.uniform 0 (r.size key.1))
  missing : ∀ key ∈ keys, r.models.contains key.1 key.2 = false → key ∉ zeros →
    r'.models.contains key.1 key.2 = false

namespace Region

variable {r r' : Region β α} {keys zeros : List (Domain × String)} {d : Domain} {name : String}

theorem valueAt_of_missing (missing : r.models.contains d name = false) (k : Nat) :
    r.valueAt d name k = 0 := by simp [valueAt, values_of_missing missing]

theorem valueAt_of_uniform_zero {n : Nat} (ran : (r.read d name).1 = .ok (.uniform 0 n)) (k : Nat) :
    r.valueAt d name k = 0 := by
  rw [valueAt, values_of_read ran, Field.toArray]
  by_cases inside : k < n <;> simp [inside]

theorem Completes.valueAt_eq (completes : r.Completes r' keys zeros) (member : (d, name) ∈ keys)
    (k : Nat) : r'.valueAt d name k = r.valueAt d name k := by
  cases present : r.models.contains d name with
  | true => simp only [valueAt, values, completes.declared _ member present]
  | false =>
    rw [valueAt_of_missing present]
    by_cases zero : (d, name) ∈ zeros
    · exact valueAt_of_uniform_zero (completes.zero _ member present zero) k
    · exact valueAt_of_missing (completes.missing _ member present zero) k

/-- Over the second region the same models do not end a pass. -/
theorem Completes.serves [BaseScalar β] (completes : r.Completes r' keys zeros)
    (readable : r.Readable keys) {settings : Settings β}
    (tolerated : ¬Severity.fatal ≤ settings.missingModel) (member : (d, name) ∈ keys) :
    r'.Serves settings (d, name) where
  tolerated _ := tolerated
  readable here := by
    cases present : r.models.contains d name with
    | true =>
      obtain ⟨data, ran⟩ := readable _ member present
      exact ⟨data, (completes.declared _ member present).trans ran⟩
    | false =>
      by_cases zero : (d, name) ∈ zeros
      · exact ⟨_, completes.zero _ member present zero⟩
      · cases (completes.missing _ member present zero).symm.trans here

omit [Scalar α] in
theorem ok_of_toOption {x : Except ModelError (Field α)} {data : Field α}
    (given : x.toOption = some data) : x = .ok data := by
  cases x with
  | error => cases given
  | ok found => exact congrArg _ (Option.some.inj given)

theorem readable_of_toOption (given : ∀ key ∈ keys, r.models.contains key.1 key.2 = true →
    (r.read key.1 key.2).1.toOption.isSome = true) : r.Readable keys := by
  intro key member present
  obtain ⟨data, ran⟩ := Option.isSome_iff_exists.mp (given key member present)
  exact ⟨data, ok_of_toOption ran⟩

theorem Readable.completes (readable : r.Readable keys) (bare : r'.bare = r.bare)
    (declared : ∀ key ∈ keys, r.models.contains key.1 key.2 = true →
      (r'.read key.1 key.2).1.toOption = (r.read key.1 key.2).1.toOption)
    (zero : ∀ key ∈ keys, r.models.contains key.1 key.2 = false → key ∈ zeros →
      (r'.read key.1 key.2).1.toOption = some (.uniform 0 (r.size key.1)))
    (missing : ∀ key ∈ keys, r.models.contains key.1 key.2 = false → key ∉ zeros →
      r'.models.contains key.1 key.2 = false) : r.Completes r' keys zeros where
  bare := bare
  declared key member present := by
    obtain ⟨data, ran⟩ := readable key member present
    rw [ran]
    exact ok_of_toOption (by rw [declared key member present, ran]; rfl)
  zero key member absent taken := ok_of_toOption (zero key member absent taken)
  missing := missing

end Region

/-! ## A region with zeros -/

namespace Region

variable {r : Region β α} {keys : List (Domain × String)} {d : Domain} {name : String}

def valueOrZero (r : Region β α) (d : Domain) (name : String) : Field α :=
  match (r.read d name).1 with
  | .ok data => data
  | .error _ => .uniform 0 (r.size d)

/-- The region with the given models only, as written values: what a read returns, zero where it
fails. -/
def filled (r : Region β α) (keys : List (Domain × String)) : Region β α :=
  { r with
    models := keys.foldl
      (fun models key => models.write key.1 key.2 (r.valueOrZero key.1 key.2)) {} }

theorem models_filled_append (key : Domain × String) : (r.filled (keys ++ [key])).models =
    (r.filled keys).models.write key.1 key.2 (r.valueOrZero key.1 key.2) := by
  simp [filled, List.foldl_append]

theorem contains_filled : (r.filled keys).models.contains d name = true ↔ (d, name) ∈ keys := by
  induction keys using List.reverseRecOn with
  | nil => exact iff_of_false (fun present => by cases present) List.not_mem_nil
  | append_singleton rest key ih =>
    rw [models_filled_append, ModelStore.contains_write, ih, List.mem_append, List.mem_singleton,
      or_comm]

theorem get?_filled {m : Model β α} (found : (r.filled keys).models.get? d name = some m) :
    m.source = .written ∧ m.state = .fresh ∧ m.value = some (r.valueOrZero d name) ∧
      m.contact = none := by
  induction keys using List.reverseRecOn generalizing m with
  | nil => cases found
  | append_singleton rest key ih =>
    rw [models_filled_append, ModelStore.get?_write] at found
    split at found
    next same =>
      obtain ⟨rfl, rfl⟩ := Prod.mk.inj same
      cases found
      exact ⟨rfl, rfl, rfl, rfl⟩
    · obtain ⟨m', before, rfl⟩ := Option.map_eq_some_iff.mp found
      have written := (ih before).1
      have kept : ∀ condition [Decidable condition], m'.outdateIf condition = m' := by
        intro condition _
        simp [Model.outdateIf, Model.outdate_of_written written]
      rw [kept]
      exact ih before

theorem read_filled (member : (d, name) ∈ keys) :
    ((r.filled keys).read d name).1 = .ok (r.valueOrZero d name) := by
  obtain ⟨m, found⟩ := Option.isSome_iff_exists.mp (contains_filled (r := r).mpr member)
  obtain ⟨-, fresh, value, -⟩ := get?_filled found
  rw [read, readWithin_of_fresh found fresh value]

theorem size_valueOrZero (ready : r.Ready) : (r.valueOrZero d name).size = r.size d := by
  unfold valueOrZero
  split
  next data ran => exact ready.reading.size_of_read ready ran
  · rfl

theorem Ready.filled (ready : r.Ready) (keys : List (Domain × String)) : (r.filled keys).Ready where
  underway := .refl (fun found _ => (get?_filled found).2.1) fun found _ =>
    ⟨_, (get?_filled found).2.2.1, size_valueOrZero ready⟩
  declared := {
    faithful := fun found computed => by
      rw [(get?_filled found).1] at computed
      cases computed
    attached := fun found contact => by
      rw [(get?_filled found).2.2.2] at contact
      cases contact }
  idle d name onStack := by
    obtain ⟨m, found, computing⟩ := onStack_iff.mp onStack
    rw [(get?_filled found).2.1] at computing
    cases computing

/-- Where declared models can be read, any of the missing ones may be taken as zero. -/
theorem exists_completes (ready : r.Ready) (readable : r.Readable keys)
    (zeros : List (Domain × String)) : ∃ r', r'.Ready ∧ r.Completes r' keys zeros := by
  let present := keys.filter fun key => r.models.contains key.1 key.2 ∨ key ∈ zeros
  have mem_present : ∀ {key}, key ∈ present ↔
      key ∈ keys ∧ (r.models.contains key.1 key.2 = true ∨ key ∈ zeros) := by simp [present]
  refine ⟨r.filled present, ready.filled present, rfl, fun key member declared => ?_,
    fun key member absent zero => ?_, fun key member absent other => ?_⟩
  · obtain ⟨data, ran⟩ := readable key member declared
    rw [read_filled (mem_present.mpr ⟨member, .inl declared⟩), valueOrZero, ran]
  · rw [read_filled (mem_present.mpr ⟨member, .inr zero⟩), valueOrZero, read_of_missing absent]
  · refine Bool.eq_false_iff.mpr fun here => ?_
    rcases (mem_present.mp (contains_filled.mp here)).2 with declared | zero
    · cases absent.symm.trans declared
    · exact other zero

end Region

/-! ## Records of the same amounts -/

section

variable [ExactScalar α] {o o' : Region β α} {measures : MeasureNames} {select : Selector}
  {circuit : Option CircuitColumn}

/-- Two regions with the same rows, in which given models have the same value at every entity, zero
where they have none. -/
structure Region.Matches (o o' : Region β α) (keys : List (Domain × String)) : Prop where
  bare : o'.bare = o.bare
  sized : ∀ d name, (o.values d name).size ≤ o.size d ∧ (o'.values d name).size ≤ o.size d
  valueAt : ∀ key ∈ keys, ∀ k, o'.valueAt key.1 key.2 k = o.valueAt key.1 key.2 k

namespace Integrand

variable (i : Integrand) {rows : Rows} {row : Nat}
  (same : o.Matches o' (i.reads measures select o.variableNames circuit))

include same

omit [ExactScalar α] in
theorem measure_congr (k : Nat) : ((o'.values i.domain (i.measure measures))[k]?).getD 0 =
    ((o.values i.domain (i.measure measures))[k]?).getD 0 :=
  same.valueAt _ i.measure_mem_reads k

omit [ExactScalar α] in
theorem direction_congr (wanted : select.wantsMatrix = true) (x : Nat → α) (k : Nat) :
    i.direction o' x circuit k = i.direction o x circuit k := by
  have names : o'.variableNames = o.variableNames :=
    Region.eq_of_bare_eq (f := Region.variableNames) (fun _ => rfl) same.bare
  have columns : o'.firstColumn = o.firstColumn :=
    Region.eq_of_bare_eq (f := Region.firstColumn) (fun _ => rfl) same.bare
  rw [direction, direction, names, columns, Region.mesh_of_bare_eq same.bare]
  refine congrArg₂ (· + ·) (congrArg List.sum (List.map_congr_left fun u solved =>
    congrArg List.sum (List.map_congr_left fun entry member => ?_)))
    (congrArg List.sum (List.map_congr_left fun c here => ?_))
  · have named : entry.1 ∈ i.derivativeNames u := List.fst_mem_of_mem_zipIdx member
    exact congrArg (· * _) (same.valueAt _ (i.derivative_mem_reads wanted solved named) k)
  · rw [same.valueAt _ (i.circuitDerivative_mem_reads wanted here)]

theorem residualAt_congr : (i.records rows o' (o'.values i.domain (i.measure measures)) circuit
      select).residualAt row =
    (i.records rows o (o.values i.domain (i.measure measures)) circuit select).residualAt row := by
  obtain ⟨covers, covers'⟩ := same.sized i.domain (i.measure measures)
  change Records.residualAt ⟨[], if select.wantsResidual then i.residual rows o' _ else []⟩ row =
    Records.residualAt ⟨[], if select.wantsResidual then i.residual rows o _ else []⟩ row
  split
  next wanted =>
    rw [i.residualAt_eq covers', i.residualAt_eq covers, Region.mesh_of_bare_eq same.bare]
    refine Finset.sum_congr rfl fun k _ => ?_
    rw [i.measure_congr same, same.valueAt _ (i.model_mem_reads wanted)]
  · rfl

theorem matrixAt_congr (x : Nat → α) :
    (i.records rows o' (o'.values i.domain (i.measure measures)) circuit select).matrixAt x row =
      (i.records rows o (o.values i.domain (i.measure measures)) circuit select).matrixAt x row := by
  obtain ⟨covers, covers'⟩ := same.sized i.domain (i.measure measures)
  change Records.matrixAt ⟨if select.wantsMatrix then i.matrix rows o' _ circuit else [], []⟩ x row =
    Records.matrixAt ⟨if select.wantsMatrix then i.matrix rows o _ circuit else [], []⟩ x row
  split
  next wanted =>
    rw [i.matrixAt_eq covers', i.matrixAt_eq covers, Region.mesh_of_bare_eq same.bare]
    refine Finset.sum_congr rfl fun k _ => ?_
    rw [i.measure_congr same, i.direction_congr same wanted]
  · rfl

end Integrand

theorem Integrand.amount_assembled_congr {terms : List (Rows × Integrand)}
    (same : o.Matches o' (o.readsOf measures select circuit (terms.map (·.2))))
    (q : Records.Quantity) (row : Nat) : (assembled measures circuit select terms o').amount q row =
      (assembled measures circuit select terms o).amount q row := by
  have each : ∀ x ∈ terms, o.Matches o' (x.2.reads measures select o.variableNames circuit) :=
    fun x member => ⟨same.bare, same.sized, fun key inReads =>
      same.valueAt key (Region.mem_readsOf (List.mem_map_of_mem member) inReads)⟩
  cases q with
  | residual =>
    rw [Records.amount_residual, Records.amount_residual, assembled, assembled,
      Records.residualAt_join, Records.residualAt_join, List.map_map, List.map_map]
    exact congrArg List.sum (List.map_congr_left fun x member =>
      x.2.residualAt_congr (each x member))
  | column column =>
    rw [Records.amount_column, Records.amount_column, assembled, assembled,
      Records.matrixAt_join, Records.matrixAt_join, List.map_map, List.map_map]
    exact congrArg List.sum
      (List.map_congr_left fun x member =>
      x.2.matrixAt_congr (each x member) fun n => if n = column then 1 else 0)

end

end

/-! ## Passes -/

section

variable [BaseScalar β] [Scalar α] [ExactScalar α]

/-- The pass succeeds. Whichever of the given models are taken as zero where they are missing, there are
regions with these zeros, and over each of them the pass succeeds as well, with records of the same
amounts. -/
def MissingIsZero (pass : RegionPass β α Unit) (s : PassState (Region β α) α)
    (keys : List (Domain × String)) : Prop :=
  ∃ s' records, pass s = (.ok (), s') ∧ s'.out = s.out.append records ∧
    ∀ zeros, (∃ r : Region β α, r.Ready ∧ s.owner.Completes r keys zeros) ∧
      ∀ t : PassState (Region β α) α, t.owner.Ready → s.owner.Completes t.owner keys zeros →
        ∃ t' records', pass t = (.ok (), t') ∧ t'.out = t.out.append records' ∧
          ∀ q row, records'.amount q row = records.amount q row

omit [BaseScalar β] [ExactScalar α] in
/-- In passes from scratch the records are all that there is. -/
theorem MissingIsZero.amount_eq {pass : RegionPass β α Unit} {r r' : Region β α}
    {keys zeros : List (Domain × String)} (zero : MissingIsZero pass { owner := r } keys)
    (ready : r'.Ready) (completes : r.Completes r' keys zeros) (q : Records.Quantity) (row : Nat) :
    (pass { owner := r' }).2.out.amount q row = (pass { owner := r }).2.out.amount q row := by
  obtain ⟨s', records, ran, out, equal⟩ := zero
  obtain ⟨t', records', ran', out', same⟩ := (equal zeros).2 { owner := r' } ready completes
  rw [ran, ran', out, out', Records.empty_append, Records.empty_append]
  exact same q row

section

variable {settings : Settings β} {select : Selector} {circuit : Option CircuitColumn}
  {s : PassState (Region β α) α}

/-- Passes that append the records of terms, and succeed where what the terms read does not end them. -/
theorem missingIsZero_of_writes {pass : RegionPass β α Unit} (terms : List (Rows × Integrand))
    (tolerated : ¬Severity.fatal ≤ settings.missingModel) (ready : s.owner.Ready)
    (readable : s.owner.Readable
      (s.owner.readsOf settings.measures select circuit (terms.map (·.2))))
    (succeeds : ∀ r : Region β α, r.Ready → r.bare = s.owner.bare →
      r.ServesAll settings select circuit (terms.map (·.2)) →
      Pass.Succeeds r.Reading pass fun _ => True)
    (writes : pass.Writes fun _ o records => o.bare = s.owner.bare →
      records = Integrand.assembled settings.measures circuit select terms o) :
    MissingIsZero pass s (s.owner.readsOf settings.measures select circuit (terms.map (·.2))) := by
  have reads : ∀ {r : Region β α}, r.bare = s.owner.bare →
      r.readsOf settings.measures select circuit (terms.map (·.2)) =
        s.owner.readsOf settings.measures select circuit (terms.map (·.2)) := fun same =>
    Region.eq_of_bare_eq (f := fun r : Region β α => r.readsOf settings.measures select circuit _)
      (fun _ => rfl) same
  obtain ⟨⟨⟩, s', ran, reading, -⟩ := (succeeds _ ready rfl fun key member =>
    ⟨readable key member, fun _ => tolerated⟩).ran s ready.reading
  obtain ⟨later, records, out, wrote⟩ := writes.appended ran
  obtain rfl := wrote later.progress.bare_eq
  refine ⟨s', _, ran, out, fun zeros => ⟨Region.exists_completes ready readable zeros,
    fun t ready' completes => ?_⟩⟩
  -- The pass over the region with zeros succeeds for the same reasons.
  have serves' : t.owner.ServesAll settings select circuit (terms.map (·.2)) := by
    intro key member
    rw [reads completes.bare] at member
    exact completes.serves readable tolerated member
  obtain ⟨⟨⟩, t', ran', reading', -⟩ := (succeeds _ ready' completes.bare serves').ran t ready'.reading
  obtain ⟨later', records', out', wrote'⟩ := writes.appended ran'
  obtain rfl := wrote' (later'.progress.bare_eq.trans completes.bare)
  refine ⟨t', _, ran', out', Integrand.amount_assembled_congr ?_⟩
  have bare : t'.owner.bare = s'.owner.bare := by
    rw [later'.progress.bare_eq, completes.bare, later.progress.bare_eq]
  have size : t'.owner.size = s'.owner.size :=
    Region.eq_of_bare_eq (f := Region.size) (fun _ => rfl) bare
  refine ⟨bare, fun d name => ⟨ready.sized_of_later later d name, ?_⟩, fun key member k => ?_⟩
  · rw [← size]
    exact ready'.sized_of_later later' d name
  · rw [reads later.progress.bare_eq] at member
    simp only [Region.valueAt, reading.values_eq ready, reading'.values_eq ready']
    exact completes.valueAt_eq member k

def BulkEquation.reads (e : BulkEquation β) (measures : MeasureNames) (select : Selector)
    (time : TimeMode) (r : Region β α) : List (Domain × String) :=
  r.readsOf measures select none (e.models.integrands measures r.mesh.elementDomain time)

/-- The models that the equation reads in a pass over a region, derivatives with respect to its circuit
node included. -/
def ContactEquation.reads (e : ContactEquation β) (measures : MeasureNames) (select : Selector)
    (time : TimeMode) (circuits : Circuit β) (r : Region β α) : List (Domain × String) :=
  r.readsOf measures select (e.column? circuits)
    (e.integrands measures r.mesh.elementDomain time (e.column? circuits))

variable {time : TimeMode} {start : Nat} (numeric : select ≠ .rows)
  (tolerated : ¬Severity.fatal ≤ settings.missingModel) (ready : s.owner.Ready)

include numeric tolerated ready

theorem BulkEquation.missingIsZero (e : BulkEquation β) (slot : s.owner.firstRow? e.name = some start)
    (readable : s.owner.Readable (e.reads settings.measures select time s.owner)) :
    MissingIsZero (e.assemble settings select time) s
      (e.reads settings.measures select time s.owner) := by
  have listed : (e.terms settings.measures s.owner.mesh.elementDomain time start).map (·.2) =
      e.models.integrands settings.measures s.owner.mesh.elementDomain time := by
    simp [terms, Function.comp_def]
  rw [reads, ← listed] at readable ⊢
  refine missingIsZero_of_writes _ tolerated ready readable (fun r ready' same serves => ?_)
    ((e.writes_assemble numeric).mono fun _ o records written same => ?_)
  · rw [listed, ← Region.mesh_of_bare_eq same] at serves
    have slot' := Region.firstRow?_of_bare_eq same ▸ slot
    exact e.succeeds_numeric ready' slot' serves
  · obtain ⟨start', slot', wrote⟩ := written
    rw [Region.firstRow?_of_bare_eq same] at slot'
    obtain rfl := Option.some.inj (slot.symm.trans slot')
    rw [wrote, Region.mesh_of_bare_eq same]

theorem ContactEquation.missingIsZero (e : ContactEquation β) {mask : Array Bool}
    {circuits : Circuit β} (slot : s.owner.firstRow? e.name = some start)
    (registered : ∀ node, e.circuitNode = some node → (circuits.row? node).isSome = true)
    (readable : s.owner.Readable (e.reads settings.measures select time circuits s.owner)) :
    MissingIsZero (e.assemble mask circuits settings select time) s
      (e.reads settings.measures select time circuits s.owner) := by
  have listed : (e.terms settings.measures s.owner.mesh.elementDomain time start mask
      (e.column? circuits)).map (·.2) =
        e.integrands settings.measures s.owner.mesh.elementDomain time (e.column? circuits) := by
    simp [terms, integrands, List.map_flatMap, Function.comp_def]
  rw [reads, ← listed] at readable ⊢
  refine missingIsZero_of_writes _ tolerated ready readable (fun r ready' same serves => ?_)
    ((e.writes_assemble numeric).mono fun _ o records written same => ?_)
  · rw [listed, ← Region.mesh_of_bare_eq same] at serves
    have slot' := Region.firstRow?_of_bare_eq same ▸ slot
    exact e.succeeds_numeric ready' numeric slot' registered serves
  · obtain ⟨start', slot', wrote⟩ := written
    rw [Region.firstRow?_of_bare_eq same] at slot'
    obtain rfl := Option.some.inj (slot.symm.trans slot')
    rw [wrote, Region.mesh_of_bare_eq same]

end

/-- Below fatal severity, a missing model contributes zero. If an equation has a slot, its circuit node
exists and what is declared of the models it reads can be read, a numeric pass succeeds, and on every
row and in every column its records amount to what they do where missing models are read as zero. -/
theorem missing_models_contribute_zero (settings : Settings β) (select : Selector) (time : TimeMode)
    (s : PassState (Region β α) α) (numeric : select ≠ .rows)
    (tolerated : ¬Severity.fatal ≤ settings.missingModel) (ready : s.owner.Ready) :
    (∀ e : BulkEquation β, (s.owner.firstRow? e.name).isSome = true →
      s.owner.Readable (e.reads settings.measures select time s.owner) →
      MissingIsZero (e.assemble settings select time) s
        (e.reads settings.measures select time s.owner)) ∧
    ∀ (e : ContactEquation β) (mask : Array Bool) (circuits : Circuit β),
      (s.owner.firstRow? e.name).isSome = true →
      (∀ node, e.circuitNode = some node → (circuits.row? node).isSome = true) →
      s.owner.Readable (e.reads settings.measures select time circuits s.owner) →
      MissingIsZero (e.assemble mask circuits settings select time) s
        (e.reads settings.measures select time circuits s.owner) := by
  refine ⟨fun e slotted readable => ?_, fun e mask circuits slotted registered readable => ?_⟩
  · obtain ⟨start, slot⟩ := Option.isSome_iff_exists.mp slotted
    exact e.missingIsZero numeric tolerated ready slot readable
  · obtain ⟨start, slot⟩ := Option.isSome_iff_exists.mp slotted
    exact e.missingIsZero numeric tolerated ready slot registered readable

end

/-- A triangle without node volumes, without an edge model and half of its derivatives, and without an
element model. -/
theorem missing_models_contribute_zero_on_triangle :
    let settings : Settings ℚ := { missingModel := .error }
    let mesh : Mesh ℚ := ⟨.triangle, #[⟨0, 0, 0⟩, ⟨1, 0, 0⟩, ⟨0, 1, 0⟩], #[⟨1, 2⟩, ⟨0, 2⟩, ⟨0, 1⟩],
      #[⟨[0, 1, 2], [0, 1, 2]⟩]⟩
    let r : Region ℚ ℚ := (Region.create 0 "device" "region" mesh {}).run
      [.addEquation "flow" "v", .setUniform .edge "EdgeCouple" 3,
        .setUniform .triangleEdge "ElementEdgeCouple" 5, .setUniform .node "N" 2,
        .setData .edge "F:v@n0" (.vector #[1, 2, 3]), .setUniform .edge "F:wire" 4,
        .setData .node "v" (.vector #[1, 4, 9]), .declare .triangleEdge "G" ∅ (.model "v@en0")]
    let r' : Region ℚ ℚ := r.run [.setUniform .node "NodeVolume" 0, .setUniform .edge "F" 0,
      .setUniform .edge "F:v@n1" 0, .setUniform .triangleEdge "ElementNodeVolume" 0,
      .setUniform .triangleEdge "H" 0]
    let bulk : BulkEquation ℚ := { name := "flow", variableName := "v", models :=
      { node := "N", edge := "F", element := "G", volumeNode0 := "H" } }
    let models : ContactModels := { node := "N", edge := "F", current := { edge := "F" } }
    let contact : ContactEquation ℚ := { name := "flow", contact := "end", models, circuitNode := "wire" }
    let circuits : Circuit ℚ := ({ base := 3 } : Circuit ℚ).add "wire" 0
    let mask := #[true, false, false]
    let onBulk := fun r => (bulk.assemble settings .both .steady { owner := r }).2.out
    let onContact := fun r => (contact.assemble mask circuits settings .both .steady { owner := r }).2.out
    (∀ q row, (onBulk r').amount q row = (onBulk r).amount q row) ∧ (onBulk r).amount (.column 1) 1 = 3 ∧
      (∀ q row, (onContact r').amount q row = (onContact r).amount q row) ∧
        (onContact r).amount (.column 3) 3 = 24 := by
  intro settings mesh r r' bulk models contact circuits mask onBulk onContact
  have amounts : (onBulk r).amount (.column 1) 1 = 3 ∧ (onContact r).amount (.column 3) 3 = 24 := by
    decide +kernel
  have ready : r.Ready := ((Region.Settled.create ..).run _).ready
  have ready' : r'.Ready := (((Region.Settled.create ..).run _).run _).ready
  have follows : r.Follows r' := r.follows_run _
  have layout : r'.layoutRevision = r.layoutRevision := by decide +kernel
  have slot : (r.firstRow? "flow").isSome = true := by decide +kernel
  have registered : ∀ node, contact.circuitNode = some node → (circuits.row? node).isSome = true := by
    rintro node ⟨⟩
    decide +kernel
  let all := bulk.reads settings.measures .both .steady r
    ++ contact.reads settings.measures .both .steady circuits r
  have given : ∀ key ∈ all, r.models.contains key.1 key.2 = true →
      (r.read key.1 key.2).1.toOption.isSome = true := by decide +kernel
  have declared : ∀ key ∈ all, r.models.contains key.1 key.2 = true →
      (r'.read key.1 key.2).1.toOption = (r.read key.1 key.2).1.toOption := by decide +kernel
  let zeros : List (Domain × String) := [(.node, "NodeVolume"), (.edge, "F"), (.edge, "F:v@n1"),
    (.triangleEdge, "ElementNodeVolume"), (.triangleEdge, "H")]
  have zero : ∀ key ∈ all, r.models.contains key.1 key.2 = false → key ∈ zeros →
      (r'.read key.1 key.2).1.toOption = some (.uniform 0 (r.size key.1)) := by decide +kernel
  have missing : ∀ key ∈ all, r.models.contains key.1 key.2 = false → key ∉ zeros →
      r'.models.contains key.1 key.2 = false := by decide +kernel
  clear_value r'
  have readable : ∀ keys ⊆ all, r.Readable keys := fun keys inAll =>
    Region.readable_of_toOption fun key member => given key (inAll member)
  have completes : ∀ keys ⊆ all, r.Completes r' keys zeros := fun keys inAll =>
    (readable keys inAll).completes (follows.unchanged layout)
      (fun key member => declared key (inAll member)) (fun key member => zero key (inAll member))
      fun key member => missing key (inAll member)
  obtain ⟨bulkZero, contactZero⟩ := missing_models_contribute_zero settings .both .steady
    { owner := r } (by decide) (by decide) ready
  have left := List.subset_append_left (bulk.reads settings.measures .both .steady r)
    (contact.reads settings.measures .both .steady circuits r)
  have right := List.subset_append_right (bulk.reads settings.measures .both .steady r)
    (contact.reads settings.measures .both .steady circuits r)
  exact ⟨(bulkZero bulk slot (readable _ left)).amount_eq ready' (completes _ left), amounts.1,
    (contactZero contact mask circuits slot registered (readable _ right)).amount_eq ready'
      (completes _ right), amounts.2⟩

end FiniteVolume
