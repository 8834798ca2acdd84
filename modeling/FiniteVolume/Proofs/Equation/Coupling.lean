import FiniteVolume.Equation.Interface
import FiniteVolume.Proofs.Assembly.Integrand
import FiniteVolume.Proofs.Model.Coupled

/-!
What an interface equation assembles, as a function of the values that it reads.

`InterfaceEquation.records` lists the records from the values of the models of an interface and its
regions; `InterfaceEquation.writes_assemble` says that a numeric pass which succeeds appends exactly
these, provided that the interface model and the areas exist.
-/
namespace FiniteVolume

variable {β α : Type} [BaseScalar β] [Scalar α]

namespace InterfaceEquation

variable (e : InterfaceEquation) (measures : MeasureNames) (c : Coupled β α)

omit [BaseScalar β]

/-- The surface area of a side, empty where it is not needed. -/
def areaOf (side : Side) : Array α :=
  if e.coupling.usesArea side then (c.region side).values .node measures.surfaceArea else #[]

def derivativeOn (side : Side) (variableName : String) : String :=
  (Suffix.interfaceSide side).apply (derivativeName e.model variableName)

def derivative? (side : Side) (variableName : String) : Option SideDerivative :=
  (((c.region side).equationFor? variableName).bind (c.region side).firstRow?).bind fun start =>
    if c.junction.models.contains .node (e.derivativeOn side variableName) then
      some ⟨side, start, e.derivativeOn side variableName⟩
    else none

/-- The derivatives with respect to the variables of a side that are declared. -/
def derivatives (side : Side) : List SideDerivative :=
  (c.region side).variableNames.filterMap (e.derivative? c side)

/-- The interface model and the areas that are needed exist. -/
def Complete : Prop :=
  c.junction.models.contains .node e.model = true ∧
    ∀ side, e.coupling.usesArea side = true →
      (c.region side).models.contains .node measures.surfaceArea = true

/-- What a look for the surface area of a side finds. -/
structure FindsArea (side : Side) (found : Option (Array α)) : Prop where
  area : e.areaOf measures c side = found.getD #[]
  present : found.isSome ↔ (e.coupling.usesArea side = true →
    (c.region side).models.contains .node measures.surfaceArea = true)

theorem complete_iff {area0 area1 : Option (Array α)} (first : e.FindsArea measures c .first area0)
    (second : e.FindsArea measures c .second area1) : e.Complete measures c ↔
      c.junction.models.contains .node e.model = true ∧ area0.isSome ∧ area1.isSome := by
  rw [Complete, first.present, second.present]
  refine and_congr_right fun _ => ⟨fun all => ⟨all .first, all .second⟩, fun both side => ?_⟩
  cases side
  · exact both.1
  · exact both.2

def recordsWith (area0 area1 : Array α) (pairs : List PairRows) (select : Selector) :
    Records α where
  matrix := if select.wantsMatrix then
      (e.derivatives c .first ++ e.derivatives c .second).flatMap fun d => pairs.flatMap fun p =>
        (p.weigh e.coupling area0 area1 (c.values d.name)).map
          fun w => ⟨w.1, d.start + p.node d.side, w.2⟩
    else []
  residual := if select.wantsResidual then
      pairs.flatMap fun p => (p.weigh e.coupling area0 area1 (c.values e.model)).map
        fun w => ⟨w.1, w.2⟩
    else []

def records (pairs : List PairRows) (select : Selector) : Records α :=
  e.recordsWith c (e.areaOf measures c .first) (e.areaOf measures c .second) pairs select

end InterfaceEquation

/-! ## What later owners keep -/

namespace Coupled

omit [BaseScalar β]

variable {c o : Coupled β α} (later : Owner.Later c o)

include later

theorem contains_of_later : o.junction.models.contains = c.junction.models.contains :=
  ModelStore.contains_of_uncached_eq later.declared

end Coupled

namespace InterfaceEquation

open Pass

variable (e : InterfaceEquation) (site : Site β)

omit [BaseScalar β] in
theorem writes_firstRow (scope : Scope) (side : Side) :
    Writes (e.firstRow scope side : CoupledPass β α Nat) fun start o records =>
      records = {} ∧ (o.region side).firstRow? (e.sideName side) = some start := by
  unfold firstRow
  refine Writes.bind_get (q := fun s start _ records => records = {} ∧
    (s.owner.region side).firstRow? (e.sideName side) = some start) (fun s => ?_) ?_
  · dsimp only
    split
    next start slot =>
      refine (Writes.pure start).mono fun _ _ _ ⟨same, nothing⟩ => ⟨nothing, ?_⟩
      rw [slot, same]
    · exact (Writes.report ..).bind_nothing fun _ =>
        (Writes.throw _).mono fun _ _ _ => False.elim
  · intro s start o records later ⟨nothing, slot⟩
    exact ⟨nothing, by rw [← Term.firstRow?_of_later (later.regions side), slot]⟩

theorem writes_area (side : Side) :
    Writes (e.area site side : CoupledPass β α (Option (Array α))) fun found o records =>
      records = {} ∧ e.FindsArea site.settings.measures o side found := by
  unfold area
  split
  next used =>
    have read : Writes (do
        let r := (← get).owner
        let site := { site with scope := { site.scope with region := some r.name } }
        return (← Term.required site .node site.settings.measures.surfaceArea).map (·.toArray) :
          RegionPass β α (Option (Array α))) fun found r records => records = {} ∧
        r.values .node site.settings.measures.surfaceArea = found.getD #[] ∧
          found.isSome = r.models.contains .node site.settings.measures.surfaceArea := by
      refine Writes.bind_get (fun s => ?_) fun _ _ _ _ _ holds => holds
      refine (Term.writes_required_declared _ _ _).bind_pure ?_
      rintro found o records ⟨nothing, held, declared⟩
      refine ⟨nothing, held.trans ?_, by rw [Option.isSome_map, declared]⟩
      cases found <;> rfl
    refine (Writes.onPart read (fun _ _ => Coupled.region_setRegion side _)
      (fun later => Coupled.leads_setRegion later) fun later => later.regions side).mono ?_
    rintro found o records ⟨nothing, held, declared⟩
    exact ⟨nothing, by rw [areaOf, if_pos used, held], by simp [declared, used]⟩
  next unused =>
    refine (Writes.pure _).mono fun found o records ⟨same, nothing⟩ => ⟨nothing, ?_, ?_⟩
    · rw [areaOf, if_neg unused, same, Option.getD_some]
    · simp [same, unused]

omit [BaseScalar β] in
theorem leads_takeNotes (c : Coupled β α) : Owner.Later c
    ⟨c.junction.takeNotes.2, c.region0.takeNotes.2, c.region1.takeNotes.2⟩ where
  geometry := rfl
  declared := rfl
  sized := id
  regions side := by cases side <;> exact Region.leads_takeNotes _
  atHand _ _ atHand := atHand

theorem writes_read (name : String) :
    Writes (read site name : CoupledPass β α (Array α)) fun values o records =>
      records = {} ∧ o.values name = values := by
  refine ⟨fun s => ?_⟩
  refine ⟨rfl, Owner.trans (Coupled.leads_read s.owner name) (leads_takeNotes _), fun values ran =>
    ⟨{}, (Records.append_empty _).symm, fun o later => ⟨rfl, ?_⟩⟩⟩
  unfold read at ran
  dsimp only at ran
  rcases result : s.owner.read name with ⟨cause | data, c⟩
  · rw [result] at ran
    cases ran
  · rw [result] at ran
    cases ran
    refine Coupled.values_of_atHand (later.atHand _ _ ?_)
    exact (leads_takeNotes _).atHand _ _ (Coupled.atHand_of_read (congrArg Prod.fst result))

omit [BaseScalar β] in
theorem derivative?_of_later {c o : Coupled β α} (later : Owner.Later c o) :
    e.derivative? o = e.derivative? c := by
  funext side variableName
  unfold derivative?
  rw [Coupled.contains_of_later later, ← Term.firstRow?_of_later (later.regions side),
    ← Term.equationFor?_of_later (later.regions side)]

theorem writes_sideDerivatives (side : Side) :
    Writes (e.sideDerivatives site side : CoupledPass β α (List SideDerivative))
      fun found o records => records = {} ∧ found = e.derivatives o side := by
  unfold sideDerivatives
  refine Writes.bind_get (q := fun s found _ records =>
    records = {} ∧ found = e.derivatives s.owner side) (fun s => ?_) ?_
  · refine (Writes.mapM (R := fun _ u y => y = e.derivative? s.owner side u) fun u _ => ?_).bind_pure
      fun found o records ⟨nothing, all⟩ => ⟨nothing, ?_⟩
    · dsimp only
      unfold derivative?
      cases ((s.owner.region side).equationFor? u).bind (s.owner.region side).firstRow? with
      | none => exact (Writes.pure _).mono fun _ _ _ => And.symm
      | some start =>
        dsimp only [Option.bind_some]
        split
        next present =>
          refine (Writes.pure _).mono fun _ _ _ ⟨same, nothing⟩ => ⟨nothing, ?_⟩
          exact same.trans (if_pos present).symm
        next absent =>
          refine (Writes.report ..).bind_nothing fun _ => ?_
          refine (Writes.pure _).mono fun _ _ _ ⟨same, nothing⟩ => ⟨nothing, ?_⟩
          exact same.trans (if_neg absent).symm
    · have mapped : found = (s.owner.region side).variableNames.map (e.derivative? s.owner side) :=
        (List.forall₂_eq_eq_eq ▸ List.forall₂_map_left_iff.mpr (all.imp fun _ _ => Eq.symm) :
          List.map _ _ = _).symm
      rw [mapped, derivatives, List.filterMap_map]
      rfl
  · rintro s found o records later ⟨nothing, same⟩
    refine ⟨nothing, ?_⟩
    rw [same, derivatives, derivatives, e.derivative?_of_later later,
      Term.variableNames_of_later (later.regions side)]

theorem writes_residual (pairs : List PairRows) (area0 area1 : Array α) :
    Writes (e.residual site pairs area0 area1 : CoupledPass β α Unit) fun _ o records =>
      records = ⟨[], pairs.flatMap fun p =>
        (p.weigh e.coupling area0 area1 (o.values e.model)).map fun w => ⟨w.1, w.2⟩⟩ := by
  unfold residual
  refine (writes_read site e.model).bind_lookup (q := fun values _ _ records =>
    records = ⟨[], pairs.flatMap fun p =>
      (p.weigh e.coupling area0 area1 values).map fun w => ⟨w.1, w.2⟩⟩)
    (fun values => Writes.addResidual _) ?_
  rintro _ _ o _ rfl rfl
  rfl

/-- The entries of a derivative with given values, in the columns of its variable. -/
def entries (pairs : List PairRows) (area0 area1 : Array α) (d : SideDerivative) (values : Array α) :
    List (MatrixRecord α) :=
  pairs.flatMap fun p => (p.weigh e.coupling area0 area1 values).map
    fun w => ⟨w.1, d.start + p.node d.side, w.2⟩

/-- The derivatives are all read before the first is written, so the values are those held then. -/
theorem writes_columns (pairs : List PairRows) (area0 area1 : Array α)
    (derivatives : List SideDerivative) :
    Writes (derivatives.mapM (fun d => return (d, ← read site d.name)) >>= fun columns =>
      columns.forM fun column => Pass.addMatrix (e.entries pairs area0 area1 column.1 column.2) :
      CoupledPass β α Unit) fun _ o records =>
        records = ⟨derivatives.flatMap fun d => e.entries pairs area0 area1 d (o.values d.name), []⟩ := by
  refine (Writes.mapM (R := fun (o : Coupled β α) d column =>
    column.1 = d ∧ column.2 = o.values d.name) fun d _ =>
      (writes_read site d.name).bind_pure fun values o records ⟨nothing, held⟩ =>
        ⟨nothing, rfl, held.symm⟩).bind_lookup
    (fun columns => Writes.forM_matrix fun column _ => Writes.addMatrix _) ?_
  rintro columns _ o _ all rfl
  congr 1
  induction all with
  | nil => rfl
  | cons here _ ih =>
    obtain ⟨rfl, held⟩ := here
    rw [List.flatMap_cons, List.flatMap_cons, ih, held]

theorem writes_matrix (pairs : List PairRows) (area0 area1 : Array α) :
    Writes (e.matrix site pairs area0 area1 : CoupledPass β α Unit) fun _ o records =>
      records = ⟨(e.derivatives o .first ++ e.derivatives o .second).flatMap fun d =>
        pairs.flatMap fun p => (p.weigh e.coupling area0 area1 (o.values d.name)).map
          fun w => ⟨w.1, d.start + p.node d.side, w.2⟩, []⟩ := by
  unfold matrix
  refine (e.writes_sideDerivatives site .first).bind_lookup (q := fun first _ o records =>
    records = ⟨(first ++ e.derivatives o .second).flatMap fun d =>
      e.entries pairs area0 area1 d (o.values d.name), []⟩) (fun first => ?_) ?_
  · refine (e.writes_sideDerivatives site .second).bind_lookup
      (fun second => e.writes_columns site pairs area0 area1 (first ++ second)) ?_
    rintro second _ o _ rfl rfl
    rfl
  · rintro first _ o _ rfl rfl
    rfl

theorem writes_hasModel : Writes (e.hasModel site : CoupledPass β α Bool) fun found o records =>
    records = {} ∧ found = o.junction.models.contains .node e.model := by
  unfold hasModel
  refine Writes.bind_get (q := fun s found o records => Owner.Later s.owner o → records = {} ∧
    found = o.junction.models.contains .node e.model) (fun s => ?_)
    fun s found o records later holds => holds later
  split
  next present =>
    refine (Writes.pure true).mono fun found o records ⟨same, nothing⟩ later => ⟨nothing, ?_⟩
    rw [Coupled.contains_of_later later, present, same]
  next absent =>
    have none : Writes (pure false : CoupledPass β α Bool) fun found o records =>
        Owner.Later s.owner o → records = {} ∧
          found = o.junction.models.contains .node e.model := by
      refine (Writes.pure false).mono fun found o records ⟨same, nothing⟩ later => ⟨nothing, ?_⟩
      rw [Coupled.contains_of_later later, same, Bool.eq_false_iff.mpr absent]
    refine (Writes.report ..).bind_nothing fun _ => ?_
    split
    · exact ((Writes.throw _).mono fun _ _ _ => False.elim).bind_nothing fun _ => none
    · exact none

/-- Where the interface model exists, its residual and its derivatives are appended. -/
theorem writes_pairs (pairs : List PairRows) (area0 area1 : Array α) (select : Selector) :
    Writes (do
      if ← e.hasModel site then
        if select.wantsResidual then e.residual site pairs area0 area1
        if select.wantsMatrix then e.matrix site pairs area0 area1 : CoupledPass β α Unit)
      fun _ o records => records = if o.junction.models.contains .node e.model then
        e.recordsWith o area0 area1 pairs select else {} := by
  refine (e.writes_hasModel site).bind_lookup (q := fun found _ o records =>
    records = if found = true then e.recordsWith o area0 area1 pairs select else {})
    (fun found => ?_) ?_
  · cases found with
    | false => exact Writes.skip
    | true =>
      have matrix : Writes (if select.wantsMatrix then e.matrix site pairs area0 area1
          else pure () : CoupledPass β α Unit) fun _ o records =>
            records = ⟨(e.recordsWith o area0 area1 pairs select).matrix, []⟩ := by
        unfold recordsWith
        split
        · exact e.writes_matrix site pairs area0 area1
        · exact Writes.skip
      simp only [if_pos]
      split
      next wanted =>
        refine (e.writes_residual site pairs area0 area1).bind (fun _ => matrix) ?_
        rintro _ _ o _ _ rfl rfl
        simp [Records.append, recordsWith, wanted]
      next unwanted =>
        refine matrix.mono fun _ o _ same => ?_
        simp [same, recordsWith, unwanted]
  · rintro _ _ o _ rfl rfl
    rfl

/-- With the areas of both sides, an equation that is complete appends its records. -/
theorem writes_areas (pairs : List PairRows) (select : Selector) :
    Writes (do
      let area0 ← e.area site .first
      let area1 ← e.area site .second
      match area0, area1 with
      | some area0, some area1 =>
        if ← e.hasModel site then
          if select.wantsResidual then e.residual site pairs area0 area1
          if select.wantsMatrix then e.matrix site pairs area0 area1
      | _, _ => return : CoupledPass β α Unit) fun _ o records =>
        (e.Complete site.settings.measures o →
          records = e.records site.settings.measures o pairs select) ∧
        (¬e.Complete site.settings.measures o → records = {}) := by
  have pairwise : ∀ area0 area1 : Option (Array α), Writes (match area0, area1 with
      | some area0, some area1 => do
        if ← e.hasModel site then
          if select.wantsResidual then e.residual site pairs area0 area1
          if select.wantsMatrix then e.matrix site pairs area0 area1
      | _, _ => return : CoupledPass β α Unit) fun _ o records =>
        e.FindsArea site.settings.measures o .first area0 →
        e.FindsArea site.settings.measures o .second area1 →
          (e.Complete site.settings.measures o →
            records = e.records site.settings.measures o pairs select) ∧
          (¬e.Complete site.settings.measures o → records = {}) := by
    intro area0 area1
    split
    next area0 area1 =>
      refine (e.writes_pairs site pairs area0 area1 select).mono fun _ o records same first second => ?_
      rw [e.complete_iff _ _ first second, same, InterfaceEquation.records, first.area, second.area]
      refine ⟨fun complete => if_pos complete.1, fun incomplete => if_neg fun present => ?_⟩
      exact incomplete ⟨present, rfl, rfl⟩
    next absent =>
      refine Writes.skip.mono fun _ o records nothing first second =>
        ⟨fun complete => ?_, fun _ => nothing⟩
      obtain ⟨-, some0, some1⟩ := (e.complete_iff _ _ first second).mp complete
      obtain ⟨a0, rfl⟩ := Option.isSome_iff_exists.mp some0
      obtain ⟨a1, rfl⟩ := Option.isSome_iff_exists.mp some1
      exact absurd rfl (absent a0 a1 rfl)
  refine (e.writes_area site .first).bind_lookup (fun area0 => (e.writes_area site .second).bind_lookup
    (pairwise area0) fun area1 _ o records second holds first => holds first second)
    fun area0 _ o records first holds => holds first

/-- A numeric pass of an interface equation appends the records at the pairs of the mask, where it has
all that it needs. There are no transient terms. -/
theorem writes_assemble {mask : Array Bool} {settings : Settings β} {select : Selector}
    {time : TimeMode} (numeric : select ≠ .rows) :
    (e.assemble mask settings select time : CoupledPass β α Unit).Writes fun _ o records =>
      match time with
      | .transient => records = {}
      | .steady => ∃ start0 start1, o.region0.firstRow? e.name0 = some start0 ∧
          o.region1.firstRow? e.name1 = some start1 ∧
          (e.Complete settings.measures o → records = e.records settings.measures o
            (o.junction.geometry.pairRows mask start0 start1) select) ∧
          (¬e.Complete settings.measures o → records = {}) := by
  cases time with
  | transient => exact Writes.skip
  | steady =>
    unfold assemble
    rw [if_pos rfl]
    refine Writes.bind_get (q := fun s _ o records => ∃ start0 start1,
      o.region0.firstRow? e.name0 = some start0 ∧ o.region1.firstRow? e.name1 = some start1 ∧
      (e.Complete settings.measures o → records = e.records settings.measures o
        (s.owner.junction.geometry.pairRows mask start0 start1) select) ∧
      (¬e.Complete settings.measures o → records = {})) (fun s => ?_) ?_
    · refine (e.writes_firstRow _ .first).bind_lookup (q := fun start0 _ o records => ∃ start1,
          o.region1.firstRow? e.name1 = some start1 ∧
          (e.Complete settings.measures o → records = e.records settings.measures o
            (s.owner.junction.geometry.pairRows mask start0 start1) select) ∧
          (¬e.Complete settings.measures o → records = {}))
        (fun start0 => (e.writes_firstRow _ .second).bind_lookup (fun start1 => ?_)
          fun start1 _ o records slot holds => ⟨start1, slot, holds⟩)
        fun start0 _ o records slot ⟨start1, rest⟩ => ⟨start0, start1, slot, rest⟩
      dsimp only
      rw [if_neg numeric]
      exact e.writes_areas ⟨settings, _⟩ _ select
    · rintro s _ o records later ⟨start0, start1, slot0, slot1, holds⟩
      rw [← later.geometry] at holds
      exact ⟨start0, start1, slot0, slot1, holds⟩

end InterfaceEquation

end FiniteVolume
