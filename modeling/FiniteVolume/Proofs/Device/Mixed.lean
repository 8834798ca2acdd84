import FiniteVolume.Proofs.Device.Output
import FiniteVolume.Proofs.Numeric.Conversion

/-!
Output and solutions in another precision than that of the device.

Whatever output a pass of a mixed device appends to, it is the pass of the device inside: it ends alike,
leaves that device as it would be left directly, and appends the same records, converted where the
precisions differ. In exact arithmetic a base device that is driven through pairs gives and takes the
numbers that it would give and take directly (`MixedDevice.precision_is_transparent`).
-/
namespace FiniteVolume

variable {β : Type} [BaseScalar β]

omit [BaseScalar β] in
def MixedRecords.append [Precision β β] [Precision β (Paired β)] :
    MixedRecords β → MixedRecords β → MixedRecords β
  | .double out, .double records => .double (out.append records)
  | .double out, .extended records => .double (out.append records.convert)
  | .extended out, .double records => .extended (out.append records.convert)
  | .extended out, .extended records => .extended (out.append records)

theorem Device.assembleConverted_eq {α γ : Type} [Scalar α] [Precision β α] [Precision β γ]
    (d : Device β α) (select : Selector) (time : TimeMode) (out : Records γ) :
    d.assembleConverted select time out =
      ((d.assemble select time {}).1, (d.assemble select time {}).2.1,
        match (d.assemble select time {}).1 with
        | .ok () => out.append (d.assemble select time {}).2.2.convert
        | .error _ => out) := by
  unfold assembleConverted
  rcases d.assemble select time {} with ⟨e | x, d', records⟩ <;> rfl

namespace MixedDevice

variable [Scalar (Paired β)] [Precision β β] [Precision β (Paired β)]

omit [Scalar (Paired β)] in
/-- A pass into some output is the direct pass of the device inside into empty output of its own
precision: it ends alike, with the device as the direct pass left it, and if that succeeded the output is
what was there followed by the records of the direct pass. -/
structure Relays {α : Type} (wrap : Device β α → MixedDevice β) (label : Records α → MixedRecords β)
    (direct : Except (DeviceError β) Unit × Device β α × Records α) (out : MixedRecords β)
    (pass : Except (DeviceError β) Unit × MixedDevice β × MixedRecords β) : Prop where
  result : pass.1 = direct.1
  device : pass.2.1 = wrap direct.2.1
  records : direct.1 = .ok () → pass.2.2 = out.append (label direct.2.2)

omit [Scalar (Paired β)] in
theorem Relays.pass_eq {α : Type} {wrap : Device β α → MixedDevice β} {label : Records α → MixedRecords β}
    {direct : Except (DeviceError β) Unit × Device β α × Records α} {out : MixedRecords β}
    {pass : Except (DeviceError β) Unit × MixedDevice β × MixedRecords β} {d' : Device β α}
    {records : Records α} (relays : Relays wrap label direct out pass)
    (ran : direct = (.ok (), d', records)) : pass = (.ok (), wrap d', out.append (label records)) := by
  subst ran
  exact Prod.ext relays.result (Prod.ext relays.device (relays.records rfl))

theorem relays_double (d : Device β β) (select : Selector) (time : TimeMode) (out : MixedRecords β) :
    Relays double .double (d.assemble select time {}) out ((double d).assemble select time out) := by
  cases out with
  | double out =>
    have appended := d.assemble_eq_append select time out
    constructor <;> simp [assemble, MixedRecords.append, appended]
  | extended out =>
    constructor <;> simp +contextual [assemble, MixedRecords.append, d.assembleConverted_eq]

theorem relays_extended (d : Device β (Paired β)) (select : Selector) (time : TimeMode)
    (out : MixedRecords β) :
    Relays extended .extended (d.assemble select time {}) out ((extended d).assemble select time out) := by
  cases out with
  | double out =>
    constructor <;> simp +contextual [assemble, MixedRecords.append, d.assembleConverted_eq]
  | extended out =>
    have appended := d.assemble_eq_append select time out
    constructor <;> simp [assemble, MixedRecords.append, appended]

section

variable [ExactScalar β] [LawfulPrecision β]

/-- In exact arithmetic, the records of a base device come back from output in pairs as they were. -/
theorem exists_converted {d d' : Device β β} {select : Selector} {time : TimeMode} {records : Records β}
    (ran : d.assemble select time {} = (.ok (), d', records)) : ∃ converted : Records (Paired β),
      (double d).assemble select time (.extended {}) = (.ok (), double d', .extended converted) ∧
      converted.convert = records := by
  refine ⟨records.convert, ?_, records.convert_convert⟩
  rw [(relays_double d select time (.extended {})).pass_eq ran, MixedRecords.append, Records.empty_append]

theorem update_map_convert (d : Device β β) (solution : Array β) :
    (double d).update (solution.map (Precision.convert : β → Paired β)) =
      Prod.map id double (d.update solution) := by
  change Prod.map id double (d.update _) = _
  rw [Precision.map_convert_convert]

end

/-- A pass of a mixed device of either precision is the pass of the device inside, into whatever output:
it ends alike, leaves that device alike, and if it succeeds appends the records that the device appends to
empty output of its own precision, converted to the precision of the output. An update is the update of the
device inside with the converted solution. In exact arithmetic base values come back from the wider
precision as they were, so that a base device gives the same records through pairs and takes the same
steps. -/
theorem precision_is_transparent :
    (∀ (d : Device β β) select time out,
      Relays double .double (d.assemble select time {}) out ((double d).assemble select time out)) ∧
    (∀ (d : Device β (Paired β)) select time out,
      Relays extended .extended (d.assemble select time {}) out
        ((extended d).assemble select time out)) ∧
    (∀ (d : Device β β) (solution : Array (Paired β)),
      (double d).update solution = Prod.map id double (d.update (solution.map Precision.convert))) ∧
    (∀ (d : Device β (Paired β)) (solution : Array β),
      (extended d).update solution = Prod.map id extended (d.update (solution.map Precision.convert))) ∧
    ∀ [ExactScalar β] [LawfulPrecision β],
      (∀ x : β, Precision.convert (Precision.convert x : Paired β) = x) ∧
      (∀ (d d' : Device β β) select time records,
        d.assemble select time {} = (.ok (), d', records) → ∃ converted : Records (Paired β),
          (double d).assemble select time (.extended {}) = (.ok (), double d', .extended converted) ∧
          converted.convert = records) ∧
      ∀ (d : Device β β) (solution : Array β),
        (double d).update (solution.map (Precision.convert : β → Paired β)) =
          Prod.map id double (d.update solution) := by
  refine ⟨relays_double, relays_extended, fun _ _ => rfl, fun _ _ => rfl, ?_⟩
  intros
  exact ⟨Precision.convert_convert, fun _ _ _ _ _ => exists_converted, update_map_convert⟩

/-- A node model assembled by a base device into pairs and by a device of pairs into base numbers, each time
behind a record that is there, a solution for either device in the other precision, and the base device
driven through pairs and back. -/
theorem rational_precision_is_transparent :
    let mesh : Mesh ℚ := ⟨.segment, #[⟨0, 0, 0⟩, ⟨1, 0, 0⟩], #[⟨0, 1⟩], #[]⟩
    let d (α : Type) [Scalar α] [Precision ℚ α] : Device ℚ α := .after { name := "device", settings := {} }
      [.addRegion "bulk" mesh, .region "bulk" (.setUniform .node "NodeVolume" 1),
        .region "bulk" (.setUniform .node "f" (1 + 1)),
        .addEquation "bulk" { name := "e", variableName := "u", models := { node := "f" } }, .claimRows]
    (∃ d', (d ℚ).assemble .residual .steady {} = (.ok (), d', { residual := [⟨0, 2⟩, ⟨1, 2⟩] }) ∧
      (double (d ℚ)).assemble .residual .steady (.extended { residual := [⟨7, ⟨1, 3⟩⟩] }) =
        (.ok (), double d', .extended { residual := [⟨7, ⟨1, 3⟩⟩, ⟨0, ⟨2, 0⟩⟩, ⟨1, ⟨2, 0⟩⟩] })) ∧
    (∃ d', (d (Paired ℚ)).assemble .residual .steady {} =
        (.ok (), d', { residual := [⟨0, ⟨2, 0⟩⟩, ⟨1, ⟨2, 0⟩⟩] }) ∧
      (extended (d (Paired ℚ))).assemble .residual .steady (.double { residual := [⟨7, 5⟩] }) =
        (.ok (), extended d', .double { residual := [⟨7, 5⟩, ⟨0, 2⟩, ⟨1, 2⟩] })) ∧
    (double (d ℚ)).update #[(⟨3, 1⟩ : Paired ℚ), ⟨4, 0⟩] = Prod.map id double ((d ℚ).update #[4, 4]) ∧
    (extended (d (Paired ℚ))).update #[(3 : ℚ), 4] =
      Prod.map id extended ((d (Paired ℚ)).update #[⟨3, 0⟩, ⟨4, 0⟩]) ∧
    (∃ d' converted, (double (d ℚ)).assemble .residual .steady (.extended {}) =
        (.ok (), double d', .extended converted) ∧
      converted.convert = { residual := [⟨0, (2 : ℚ)⟩, ⟨1, 2⟩] }) ∧
    (double (d ℚ)).update (#[3, 4].map (Precision.convert : ℚ → Paired ℚ)) =
      Prod.map id double ((d ℚ).update #[3, 4]) := by
  intro mesh d
  have base : ((d ℚ).assemble .residual .steady {}).1.toBool = true ∧
      ((d ℚ).assemble .residual .steady {}).2.2 = { residual := [⟨0, 2⟩, ⟨1, 2⟩] } := by
    decide +kernel
  have pairs : ((d (Paired ℚ)).assemble .residual .steady {}).1.toBool = true ∧
      ((d (Paired ℚ)).assemble .residual .steady {}).2.2 =
        { residual := [⟨0, ⟨2, 0⟩⟩, ⟨1, ⟨2, 0⟩⟩] } := by
    decide +kernel
  -- The runs are known now, and the devices themselves must not be unfolded below.
  clear_value d
  obtain ⟨⟨⟩, ⟨d₁, _⟩, ran₁⟩ := exists_eq_ok_of_toBool base.1
  obtain ⟨⟨⟩, ⟨d₂, _⟩, ran₂⟩ := exists_eq_ok_of_toBool pairs.1
  rw [ran₁] at base
  rw [ran₂] at pairs
  obtain ⟨-, rfl⟩ := base
  obtain ⟨-, rfl⟩ := pairs
  obtain ⟨relays, relays', update, update', exact⟩ := precision_is_transparent (β := ℚ)
  obtain ⟨-, returned, updated⟩ := exact
  refine ⟨⟨d₁, ran₁, ?_⟩, ⟨d₂, ran₂, ?_⟩, ?_, ?_, ⟨d₁, returned _ _ _ _ _ ran₁⟩, updated _ #[3, 4]⟩
  · exact (relays (d ℚ) .residual .steady _).pass_eq ran₁
  · have rounded : Records.append { residual := [⟨7, (5 : ℚ)⟩] }
          (Records.convert { residual := [⟨0, (⟨2, 0⟩ : Paired ℚ)⟩, ⟨1, ⟨2, 0⟩⟩] }) =
        { residual := [⟨7, 5⟩, ⟨0, (2 : ℚ)⟩, ⟨1, 2⟩] } := by
      decide +kernel
    rw [← rounded]
    exact (relays' (d (Paired ℚ)) .residual .steady (.double { residual := [⟨7, 5⟩] })).pass_eq ran₂
  · have rounded : #[(⟨3, 1⟩ : Paired ℚ), ⟨4, 0⟩].map Precision.convert = #[(4 : ℚ), 4] := by
      decide +kernel
    rw [← rounded]
    exact update (d ℚ) _
  · have widened : #[(3 : ℚ), 4].map Precision.convert = #[(⟨3, 0⟩ : Paired ℚ), ⟨4, 0⟩] := by
      decide +kernel
    rw [← widened]
    exact update' (d (Paired ℚ)) _

end MixedDevice

end FiniteVolume
