import FiniteVolume.Device.Update

/-!
A device of either precision behind one interface. Output and solutions may be in either precision;
they are converted where it differs from that of the device.
-/
namespace FiniteVolume

/-- A device in the precision that was chosen for it. -/
inductive MixedDevice (β : Type) [BaseScalar β] where
  | double (device : Device β β)
  | extended (device : Device β (Paired β))

inductive MixedRecords (β : Type) where
  | double (records : Records β)
  | extended (records : Records (Paired β))

namespace Device

variable {β α γ : Type} [BaseScalar β] [Scalar α] [Precision β α] [Precision β γ]

/-- Assemble into output of another precision, which is left alone by a failing pass. -/
def assembleConverted (d : Device β α) (select : Selector) (time : TimeMode) (out : Records γ) :
    Except (DeviceError β) Unit × Device β α × Records γ :=
  match d.assemble select time {} with
  | (.ok (), d, records) => (.ok (), d, out.append records.convert)
  | (.error e, d, _) => (.error e, d, out)

end Device

namespace MixedDevice

variable {β γ : Type} [BaseScalar β] [Scalar (Paired β)] [Precision β β] [Precision β (Paired β)]

def create (kind : PrecisionKind) (name : String) (settings : Settings β) :
    Except (DeviceError β) (MixedDevice β) :=
  match kind with
  | .double => (Device.create name settings).map double
  | .extended => (Device.create name settings).map extended

omit [Scalar (Paired β)] [Precision β β] [Precision β (Paired β)] in
def kind : MixedDevice β → PrecisionKind
  | double _ => .double
  | extended _ => .extended

def claimRows : MixedDevice β → Except (DeviceError β) Unit × MixedDevice β
  | double d => let (result, d) := d.claimRows; (result, double d)
  | extended d => let (result, d) := d.claimRows; (result, extended d)

def assemble (d : MixedDevice β) (select : Selector) (time : TimeMode) (out : MixedRecords β) :
    Except (DeviceError β) Unit × MixedDevice β × MixedRecords β :=
  match d, out with
  | double d, .double out =>
    let (result, d, out) := d.assemble select time out
    (result, double d, .double out)
  | double d, .extended out =>
    let (result, d, out) := d.assembleConverted select time out
    (result, double d, .extended out)
  | extended d, .double out =>
    let (result, d, out) := d.assembleConverted select time out
    (result, extended d, .double out)
  | extended d, .extended out =>
    let (result, d, out) := d.assemble select time out
    (result, extended d, .extended out)

def update [Precision β γ] (d : MixedDevice β) (solution : Array γ) :
    Except (DeviceError β) (UpdateStats β) × MixedDevice β :=
  match d with
  | double d =>
    let (result, d) := d.update (solution.map Precision.convert)
    (result, double d)
  | extended d =>
    let (result, d) := d.update (solution.map Precision.convert)
    (result, extended d)

def name : MixedDevice β → String
  | double d => d.name
  | extended d => d.name

def rowCount : MixedDevice β → Nat
  | double d => d.rowCount
  | extended d => d.rowCount

def lastUpdate : MixedDevice β → UpdateStats β
  | double d => d.lastUpdate
  | extended d => d.lastUpdate

def equation? (d : MixedDevice β) (region name : String) : Option (BulkEquation β) :=
  match d with
  | double d => d.equation? region name
  | extended d => d.equation? region name

def blockText : MixedDevice β → String
  | double d => d.blockText
  | extended d => d.blockText

end MixedDevice

end FiniteVolume
