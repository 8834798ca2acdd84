import FiniteVolume.Device.Mixed
import FiniteVolume.Expression.Evaluation
import FiniteVolume.Report.Fault

/-!
Reports of models, evaluations, assemblies and devices.
-/
namespace FiniteVolume

instance : Reportable Domain := ⟨fun d => .text d.text⟩

instance : Reportable ModelState :=
  ⟨fun
    | .stale => .text "stale"
    | .computing => .text "computing"
    | .fresh => .text "fresh"⟩

instance : Reportable Contact := ⟨fun c => report (c.name, c.region, c.nodes)⟩

instance : Reportable Log :=
  ⟨fun log => report (log.records.map fun r => (r.severity.text, r.scope.text, r.message))⟩

instance : Reportable Note :=
  ⟨fun n => .record [("model", .text n.model), ("text", .text n.text)]⟩

/-- Every claimed row with the row that takes over and whether it keeps a copy. -/
instance : Reportable RowMap :=
  ⟨fun rows => report (rows.entries.map fun (row, move) => (row, move.target?, move.keepsCopy))⟩

instance : Reportable Command :=
  ⟨fun c => .record [("name", .text c.name), ("options", report c.options.toList),
    ("text", .text c.text)]⟩

instance : Reportable (UpdateStats Float) :=
  ⟨fun s => .record [("abs_error", .real s.absError), ("abs_node", .count s.absNode),
    ("rel_error", .real s.relError), ("rel_node", .count s.relNode)]⟩

instance : Reportable (Circuit Float) := ⟨fun c => report c.toList⟩

section

variable {α : Type} [Precision Float α]

instance : Reportable (Field α) :=
  ⟨fun
    | .uniform x len => .record [("len", .count len), ("uniform", .value x)]
    | .vector xs => .record [("values", report xs)]⟩

instance : Reportable (Resolved α) :=
  ⟨fun r => .record [("data", report r.data), ("kind", report r.domain)]⟩

instance : Reportable (Records α) :=
  ⟨fun r => .record
    [("matrix", report (r.matrix.map fun m => (m.row, m.column, Report.value m.value))),
      ("rhs", report (r.residual.map fun m => (m.row, Report.value m.value)))]⟩

def Records.sumsReport [Scalar α] (r : Records α) : Report :=
  let entries := r.matrixByEntry.map fun ((row, column), v) => (row, column, Report.value v)
  let rows := r.residualByRow.map fun (row, v) => (row, Report.value v)
  .record [("matrix", report entries), ("rhs", report rows)]

instance : Reportable (Value α) :=
  ⟨fun v =>
    let content := match v with
      | .scalar x => .value x
      | .field _ data => report data
      | .invalid => .null
    .record [("type", .text v.typeText), ("value", content)]⟩

def Evaluation.reportFields (e : Evaluation α) : List (String × Report) :=
  [("data", report e.value), ("errors", .list (e.errors.map Fault.report)),
    ("valid", .truth e.isValid)]

instance : Reportable (Evaluation α) := ⟨fun e => .record e.reportFields⟩

def Model.report (d : Domain) (name : String) (m : Model Float α) : Report :=
  .record [("cached", Reportable.report m.value), ("calculated", .truth m.isComputed),
    ("contact", Reportable.report m.contact), ("display", .text m.display.text),
    ("expression", Reportable.report m.expression), ("kind", .text d.text), ("name", .text name),
    ("state", Reportable.report m.state)]

def ModelStore.modelReport (s : ModelStore Float α) (d : Domain) (name : String) : Report :=
  report ((s.get? d name).map (Model.report d name))

/-- The report of the state of a name: the state of its model, and whether that is current. -/
def ModelStore.stateReport (s : ModelStore Float α) (d : Domain) (name : String) : Report :=
  report (s.state? d name, s.isFresh d name)

instance : Reportable (Access Float α) :=
  ⟨fun
    | .ready data => .record [("ready", report data)]
    | .compute calculator target => .record [("compute", .record
        [("contact", report target.contact), ("deps", report calculator.dependencies),
          ("kind", report target.domain), ("len", .count target.size), ("name", .text target.name)])]⟩

instance : Reportable (Region Float α) :=
  ⟨fun r => .record [("base", .count r.base), ("device", .text r.device),
    ("domain_len", report (Domain.all.map r.size)), ("name", .text r.name),
    ("nodes", .count r.nodeCount), ("rows", .count r.rowCount), ("scope", .text r.scope.text),
    ("slots", .count r.slots.size), ("variables", report r.variableNames)]⟩

instance : Reportable (Junction Float α) :=
  ⟨fun j => .record [("len", .count j.size), ("name", .text j.name), ("scope", .text j.scope.text),
    ("sides", report (Side.both.map j.geometry.nodes))]⟩

def PassState.report {σ ρ : Type} [Reportable ρ] (s : PassState σ α)
    (result : Except AssemblyError ρ) : Report :=
  .record [("log", Reportable.report s.log), ("out", Reportable.report s.out),
    ("result", Reportable.report result)]

def Device.layoutReport (d : Device Float α) : Report :=
  .record [("contacts", report (d.contactEquations.map fun (_, e) => (e.contact, e.name))),
    ("device", .text d.name),
    ("equations", report (d.bulkEquations.map fun (region, e) =>
      (region, e.name, e.variableName, e.policy.text))),
    ("interfaces", report (d.interfaceEquations.map fun (interface, e) =>
      (interface, e.name, e.name0, e.name1, e.model, e.coupling.text))),
    ("regions", report (d.parts.regions.values.map fun r => (r.name, r.base, r.rowCount))),
    ("rows", .count d.rowCount)]

def Device.currentsReport (d : Device Float α) : Report :=
  report (d.contactEquations.map fun (_, e) =>
    (e.contact, e.name, e.circuitNode, e.current, e.charge))

end

end FiniteVolume
