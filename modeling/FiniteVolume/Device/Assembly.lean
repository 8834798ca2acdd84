import FiniteVolume.Device.Ownership

/-!
Passes over a whole device. Boundary equations write to their rows as they are; what bulk equations
write is moved by the claims of the boundary equations.
-/
namespace FiniteVolume.Device

variable {β α : Type} [BaseScalar β]

/-- Run a pass over the parts of a device, which keeps rows and log as far as the pass came. -/
def run {ρ : Type} (d : Device β α) (out : Records α) (step : Pass (Parts β α) α ρ) :
    Except AssemblyError ρ × Device β α × Records α :=
  let (result, s) := step { owner := d.parts, rows := d.rows, log := d.log, out }
  (result, { d with parts := s.owner, rows := s.rows, log := s.log }, s.out)

variable [Scalar α]

def boundaryPass (d : Device β α) (select : Selector) (time : TimeMode) :
    Pass (Parts β α) α Unit := do
  d.ownedNodes.forM fun (region, e, mask) =>
    discard (Parts.onRegion region (e.assemble mask d.circuit d.settings select time))
  d.ownedPairs.forM fun (interface, e, mask) =>
    discard (Parts.onCoupled interface (e.assemble mask d.settings select time))

def bulkPass (d : Device β α) (select : Selector) (time : TimeMode) : Pass (Parts β α) α Unit :=
  d.bulkEquations.forM fun (region, e) =>
    discard (Parts.onRegion region (e.assemble d.settings select time))

/-- Record a conflict of claims; other failures are recorded where they arise. -/
def recordConflict (d : Device β α) (e : AssemblyError) : Device β α :=
  match e with
  | .rowConflict _ => { d with log := d.log.write .fatal { device := d.name } e.message }
  | _ => d

def claimRows (d : Device β α) : Except (DeviceError β) Unit × Device β α :=
  let d := { d.renumber with rows := ∅ }
  match d.run {} (d.boundaryPass .rows .steady) with
  | (.ok (), d, _) => (.ok (), { d with stage := .claimed d.layout })
  | (.error e, d, _) => (.error (.assembly e), d.recordConflict e)

def checkLayout (d : Device β α) : Device β α :=
  match d.stage with
  | .claimed layout => if layout = d.layout then d else d.renumber
  | .idle => d

/-- A pass for numbers: boundary equations into the output, then the bulk equations on the rows where
they land. -/
def numericPass (d : Device β α) (select : Selector) (time : TimeMode) (out : Records α) :
    Except (DeviceError β) Unit × Device β α × Records α :=
  match d.run out (d.boundaryPass select time) with
  | (.error e, d, out) => (.error (.assembly e), d, out)
  | (.ok (), d, out) =>
    match d.run {} (d.bulkPass select time) with
    | (.error e, d, _) => (.error (.assembly e), d, out)
    | (.ok (), d, bulk) => (.ok (), d, out.append (bulk.permute d.rows))

/-- Append one pass to the output. A pass over rows claims them anew and appends nothing; any other
pass needs the rows to be claimed. -/
def assemble (d : Device β α) (select : Selector) (time : TimeMode) (out : Records α) :
    Except (DeviceError β) Unit × Device β α × Records α :=
  if select = .rows then
    let (result, d) := d.claimRows
    (result, d, out)
  else
    let d := d.checkLayout
    match d.stage with
    | .claimed _ => d.numericPass select time out
    | .idle =>
      let error := AssemblyError.rowsNotClaimed
      (.error (.assembly error),
        { d with log := d.log.write .fatal { device := d.name } error.message }, out)

def assembleCycle (d : Device β α) (select : Selector) (time : TimeMode) (out : Records α) :
    Except (DeviceError β) Unit × Device β α × Records α :=
  match d.claimRows with
  | (.error e, d) => (.error e, d, out)
  | (.ok (), d) => d.assemble select time out

end FiniteVolume.Device
