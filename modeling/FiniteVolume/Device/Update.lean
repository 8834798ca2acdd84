import FiniteVolume.Device.Assembly

/-!
Updates of a whole device from one raw step per row: the variables of the bulk equations in the order
of registration, the circuit nodes, and then the currents and charges of the contacts. A failure
leaves what was updated before it.
-/
namespace FiniteVolume.Device

variable {β α : Type} [BaseScalar β] [Scalar α] [Precision β α]

def integrateFrom (settings : Settings β) :
    List (String × ContactEquation β × Array Bool) → PassState (Parts β α) α →
      Except AssemblyError Unit × List (String × ContactEquation β) × PassState (Parts β α) α
  | [], s => (.ok (), [], s)
  | (region, e, mask) :: rest, s =>
    match Parts.onRegion region (e.integrate mask settings) s with
    | (.error fault, s) => (.error fault, (region, e) :: rest.map fun (r, e, _) => (r, e), s)
    | (.ok integrated, s) =>
      let (result, rest, s) := integrateFrom settings rest s
      (result, (region, integrated.getD e) :: rest, s)

def integrateContacts (d : Device β α) : Except (DeviceError β) Unit × Device β α :=
  let (result, contactEquations, s) :=
    integrateFrom d.settings d.ownedNodes { owner := d.parts, log := d.log }
  (result.mapError .assembly, { d with parts := s.owner, log := s.log, contactEquations })

/-- Update the variables of bulk equations one after the other. An equation without a slot has no rows
and keeps its variable. -/
def updateFrom (settings : UpdateSettings β) (solution : Array α) (stats : UpdateStats β) :
    List (String × BulkEquation β) → Parts β α → Log →
      Except (DeviceError β) (UpdateStats β) × List (String × BulkEquation β) × Parts β α × Log
  | [], parts, log => (.ok stats, [], parts, log)
  | (region, e) :: rest, parts, log =>
    match (do
      let r ← parts.regions.get? region
      return (r, ← r.firstRow? e.name)) with
    | none =>
      let (result, rest, parts, log) := updateFrom settings solution stats rest parts log
      (result, (region, e) :: rest, parts, log)
    | some (r, start) =>
      let stop := start + r.nodeCount
      if solution.size < stop then
        (.error (.rowsOutOfRange e.name (stop - 1) solution.size), (region, e) :: rest, parts, log)
      else
        match e.update settings (solution.extract start stop) r log with
        | (.error fault, r, log) =>
          (.error (.update fault), (region, e) :: rest, parts.setRegion region r, log)
        | (.ok e, r, log) =>
          let (result, rest, parts, log) :=
            updateFrom settings solution (stats.max e.last) rest (parts.setRegion region r) log
          (result, (region, e) :: rest, parts, log)

/-- Add the raw steps of their rows to the circuit nodes. -/
def updateCircuit (d : Device β α) (solution : Array α) : Device β α :=
  d.circuit.toList.foldl
    (fun d (name, row, value) =>
      d.setCircuitValue name (value + Precision.widen (solution[row]?.getD 0)))
    d

def update (d : Device β α) (solution : Array α) :
    Except (DeviceError β) (UpdateStats β) × Device β α :=
  if solution.size ≠ d.rowCount then
    (.error (.update (.lengthMismatch d.rowCount solution.size)), d)
  else
    match updateFrom d.settings.update solution {} d.bulkEquations d.parts d.log with
    | (.error e, bulkEquations, parts, log) => (.error e, { d with bulkEquations, parts, log })
    | (.ok stats, bulkEquations, parts, log) =>
      let d := { d with bulkEquations, parts, log }.updateCircuit solution
      match d.integrateContacts with
      | (.error e, d) => (.error e, d)
      | (.ok (), d) => (.ok stats, { d with lastUpdate := stats })

end FiniteVolume.Device
