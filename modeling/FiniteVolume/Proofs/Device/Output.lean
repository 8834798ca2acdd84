import FiniteVolume.Device.Mixed
import FiniteVolume.Proofs.Device.Cycle
import FiniteVolume.Proofs.Device.Steps

/-!
What a pass appends to its output.

A pass does not look at earlier output and appends to it what it would append to nothing
(`Device.assemble_append`). A pass that fails leaves in the output what the boundary equations wrote
before the failure, and nothing of the bulk equations; output of another precision is left alone
(`Device.failed_pass_leaves_boundary_records`).
-/
namespace FiniteVolume.Device

open Pass

variable {β α : Type} [BaseScalar β]

/-! ## Earlier output -/

theorem run_append {ρ : Type} {step : Pass (Parts β α) α ρ} (framed : Framed step) (d : Device β α)
    (before out : Records α) : d.run (before.append out) step =
      ((d.run out step).1, (d.run out step).2.1, before.append (d.run out step).2.2) := by
  rcases ran : step (d.passState out) with ⟨result, s⟩
  have longer := framed.ran (d.passState out) before
  rw [ran] at longer
  rw [run_eq d out ran, run_eq d (before.append out) longer]

variable [Scalar α] {d : Device β α} {select : Selector} {time : TimeMode}

theorem numericPass_append (numeric : select ≠ .rows) (before out : Records α) :
    d.numericPass select time (before.append out) = ((d.numericPass select time out).1,
      (d.numericPass select time out).2.1, before.append (d.numericPass select time out).2.2) := by
  unfold numericPass
  rw [run_append (Parts.framed (d.composed_boundaryPass time numeric))]
  rcases d.run out (d.boundaryPass select time) with ⟨e | x, d', out'⟩
  · rfl
  · dsimp only
    rcases d'.run {} (d'.bulkPass select time) with ⟨e | x, d'', bulk⟩
    · rfl
    · dsimp only
      rw [Records.append_assoc]

theorem assemble_append (d : Device β α) (select : Selector) (time : TimeMode)
    (before out : Records α) : d.assemble select time (before.append out) =
      ((d.assemble select time out).1, (d.assemble select time out).2.1,
        before.append (d.assemble select time out).2.2) := by
  unfold assemble
  split
  · rfl
  next numeric =>
    dsimp only
    split
    · exact numericPass_append numeric before out
    · rfl

/-- A pass begins from the output that is there. -/
theorem assemble_eq_append (d : Device β α) (select : Selector) (time : TimeMode) (out : Records α) :
    d.assemble select time out = ((d.assemble select time {}).1, (d.assemble select time {}).2.1,
      out.append (d.assemble select time {}).2.2) := by
  rw [← assemble_append, Records.append_empty]

/-! ## Failing passes -/

/-- What the boundary equations append in a pass, as far as they come. They run in passes for numbers, once
the rows are ready. -/
def boundaryRecords (d : Device β α) (select : Selector) (time : TimeMode) : Records α :=
  if select ≠ .rows ∧ d.Ready then (d.run {} (d.boundaryPass select time)).2.2 else {}

/-- A failing pass for numbers leaves what the boundary equations wrote, whether they failed or a bulk
equation did. -/
theorem records_of_failed_numericPass {e : DeviceError β}
    (failed : (d.numericPass select time {}).1 = .error e) :
    (d.numericPass select time {}).2.2 = (d.run {} (d.boundaryPass select time)).2.2 := by
  unfold numericPass at failed ⊢
  rcases boundary : d.run {} (d.boundaryPass select time) with ⟨e | x, d', out'⟩
  · rfl
  · rw [boundary] at failed
    dsimp only at failed ⊢
    rcases bulk : d'.run {} (d'.bulkPass select time) with ⟨e | x, d'', records⟩
    · rfl
    · rw [bulk] at failed
      cases failed

theorem records_of_failed {e : DeviceError β} (failed : (d.assemble select time {}).1 = .error e) :
    (d.assemble select time {}).2.2 = d.boundaryRecords select time := by
  unfold boundaryRecords
  by_cases rows : select = .rows
  · rw [if_neg (by simp [rows]), assemble, if_pos rows]
  by_cases ready : d.Ready
  · rw [if_pos ⟨rows, ready⟩]
    rw [assemble_of_ready rows time {} ready] at failed ⊢
    exact records_of_failed_numericPass failed
  · rw [if_neg (by simp [ready]), assemble_of_not_ready rows time {} ready]

omit [BaseScalar β] [Scalar α] in
theorem append_eq_self_iff {out records : Records α} : out.append records = out ↔ records = {} := by
  constructor
  · intro same
    have matrix : out.matrix ++ records.matrix = out.matrix := congrArg Records.matrix same
    have residual : out.residual ++ records.residual = out.residual := congrArg Records.residual same
    cases records
    simp_all
  · rintro rfl
    exact Records.append_empty out

variable {γ : Type} [Precision β α] [Precision β γ]

/-- A pass that fails leaves its output extended by what the boundary equations wrote before the failure,
so as it was exactly where they wrote nothing; through output of another precision it fails alike and
leaves that as it was. -/
theorem failed_pass_leaves_boundary_records {out : Records α} {e : DeviceError β}
    (failed : (d.assemble select time out).1 = .error e) :
    (d.assemble select time out).2.2 = out.append (d.boundaryRecords select time) ∧
    ((d.assemble select time out).2.2 = out ↔ d.boundaryRecords select time = {}) ∧
    ∀ out' : Records γ, d.assembleConverted select time out' =
      (.error e, (d.assemble select time out).2.1, out') := by
  rw [assemble_eq_append] at failed ⊢
  dsimp only at failed ⊢
  rw [records_of_failed failed]
  refine ⟨rfl, append_eq_self_iff, fun out' => ?_⟩
  unfold assembleConverted
  split
  next ran =>
    rw [ran] at failed
    cases failed
  next ran =>
    rw [ran] at failed ⊢
    cases failed
    rfl

/-- The contact equation has written its record when the bulk equation turns out to lack its model. -/
theorem failed_pass_leaves_contact_record :
    let mesh : Mesh ℚ := ⟨.segment, #[⟨0, 0, 0⟩, ⟨1, 0, 0⟩], #[⟨0, 1⟩], #[]⟩
    let d : Device ℚ ℚ := after { name := "device", settings := {} }
      [.addRegion "bulk" mesh, .region "bulk" (.setUniform .node "NodeVolume" 1),
        .region "bulk" (.setUniform .node "g" 2), .addContact "end" "bulk" [0],
        .addEquation "bulk" { name := "e", variableName := "u", models := { node := "f" } },
        .addContactEquation { name := "e", contact := "end", models := { node := "g" } }, .claimRows]
    d.Reached ∧ (d.assemble .residual .steady {}).1.mapError DeviceError.message =
        .error "assembly: Device: \"device\" Region: \"bulk\" Equation: \"e\": missing node model \"f\"" ∧
      (d.assemble .residual .steady {}).2.2 = { residual := [⟨0, 2⟩] } ∧
      (d.assembleConverted .residual .steady ({} : Records ℚ)).2.2 = {} := by
  intro mesh d
  exact ⟨reached_after (by decide +kernel) _, by decide +kernel, by decide +kernel, by decide +kernel⟩

/-- Earlier records stay as well, before the one of the contact equation. -/
theorem failed_pass_leaves_boundary_records_behind_earlier :
    let mesh : Mesh ℚ := ⟨.segment, #[⟨0, 0, 0⟩, ⟨1, 0, 0⟩], #[⟨0, 1⟩], #[]⟩
    let d : Device ℚ ℚ := after { name := "device", settings := {} }
      [.addRegion "bulk" mesh, .region "bulk" (.setUniform .node "NodeVolume" 1),
        .region "bulk" (.setUniform .node "g" 2), .addContact "end" "bulk" [0],
        .addEquation "bulk" { name := "e", variableName := "u", models := { node := "f" } },
        .addContactEquation { name := "e", contact := "end", models := { node := "g" } }, .claimRows]
    let out : Records ℚ := { residual := [⟨1, 5⟩] }
    ∃ e, (d.assemble .residual .steady out).1 = .error e ∧
      (d.assemble .residual .steady out).2.2 = { residual := [⟨1, 5⟩, ⟨0, 2⟩] } ∧
      (d.assembleConverted .residual .steady out).2.2 = out := by
  intro mesh d out
  have fails : (d.assemble .residual .steady out).1.toBool = false := by decide +kernel
  have records : d.boundaryRecords .residual .steady = { residual := [⟨0, 2⟩] } := by decide +kernel
  clear_value d
  cases ran : (d.assemble .residual .steady out).1 with
  | ok x =>
    rw [ran] at fails
    cases fails
  | error e =>
    obtain ⟨left, -, other⟩ := failed_pass_leaves_boundary_records (γ := ℚ) ran
    rw [records] at left
    exact ⟨e, rfl, left, congrArg (·.2.2) (other out)⟩

end FiniteVolume.Device
