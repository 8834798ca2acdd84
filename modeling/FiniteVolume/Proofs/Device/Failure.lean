import FiniteVolume.Proofs.Device.Outcome
import FiniteVolume.Proofs.Numeric.Exact

/-!
Updates that fail.

An update that an equation refuses has taken the turns before it and none after; circuit nodes, contacts and
the statistics of the device are as they were. One that fails while contacts are integrated has taken all
turns and moved the circuit nodes (`Device.failing_update`). Variables are not written out of turn, but one
that is computed from another follows it (`Device.later_variable_follows`).
-/
namespace FiniteVolume

variable {β α : Type} [BaseScalar β] [Scalar α] [Precision β α]

/-! ## One equation -/

/-- The declarations are the same, values at hand still are, and in a region at rest every read returns what
it did. -/
structure Region.Unaltered (r r' : Region β α) : Prop where
  declared : r'.uncached = r.uncached
  atHand : ∀ d name data, r.AtHand d name data → r'.AtHand d name data
  reads : r.Ready → ∀ d name data, (r'.read d name).1 = .ok data ↔ (r.read d name).1 = .ok data

omit [BaseScalar β] [Precision β α] in
theorem Region.unaltered_read (r : Region β α) (d : Domain) (name : String) :
    r.Unaltered (r.read d name).2 where
  declared := (r.progress_read d name).declared
  atHand _ _ _ := (r.progress_read d name).atHand
  reads ready _ _ _ := (ready.reading.read ready d name).read_eq_ok_iff ready

/-- An update that is refused alters nothing in its region. -/
theorem BulkEquation.unaltered_of_update_error {e : BulkEquation β} {settings : UpdateSettings β}
    {raw : Array α} {r r' : Region β α} {log log' : Log} {fault : UpdateError β}
    (ran : e.update settings raw r log = (.error fault, r', log')) : r.Unaltered r' := by
  rw [region_of_update_error ran]
  exact r.unaltered_read .node e.variableName

namespace Device

/-! ## Updates of a device -/

/-- The variable of an equation is declared as before, and stored data is the same. -/
def KeepsVariable (p p' : Parts β α) (x : String × BulkEquation β) : Prop :=
  ∀ r, p.regions.get? x.1 = some r → ∃ r', p'.regions.get? x.1 = some r' ∧
    (r'.models.get? .node x.2.variableName).map Model.uncached =
      (r.models.get? .node x.2.variableName).map Model.uncached ∧
    ∀ data, r.Stored .node x.2.variableName data → r'.Stored .node x.2.variableName data

/-- The update was refused in the turn of an equation. Those before it have taken their turns; it and those
after it are as they were, and nothing else has changed but the log. -/
structure RefusedUpdate (d : Device β α) (solution : Array α) (fault : UpdateError β) (d' : Device β α)
    (before : List (String × BulkEquation β)) (x : String × BulkEquation β)
    (after : List (String × BulkEquation β)) : Prop where
  split : d.bulkEquations = before ++ x :: after
  taken : ∃ updated, d'.bulkEquations = updated ++ x :: after ∧
    AllTaken d.settings.update solution d.updateStart before updated d'.parts
  refused : ∃ s updated r', Turns d.settings.update solution d.updateStart before s updated ∧
    Refused d.settings.update solution s x fault r' d'.log
  later : ∀ y ∈ x :: after, KeepsVariable d.parts d'.parts y
  models : d.parts.WritesOnly (Variables d.parts before) d'.parts
  rest : d' = { d with bulkEquations := d'.bulkEquations, parts := d'.parts, log := d'.log }

/-- The update failed while contacts were integrated. All equations have taken their turns, and circuit nodes
have taken the entries on their rows. -/
structure InterruptedUpdate (d : Device β α) (solution : Array α) (d' : Device β α) : Prop where
  taken : AllTaken d.settings.update solution d.updateStart d.bulkEquations d'.bulkEquations d'.parts
  circuit : ∀ name row value, d.circuit.row? name = some row → d.circuit.value? name = some value →
    d'.circuit.value? name = some (value + Precision.widen (solution[row]?.getD 0))
  lastUpdate : d'.lastUpdate = d.lastUpdate

omit [Scalar α] [Precision β α] in
theorem keepsVariable_of_writesOnly {p p' : Parts β α} {written : String → Domain → String → Prop}
    {x : String × BulkEquation β} (writes : p.WritesOnly written p')
    (not : ¬written x.1 .node x.2.variableName) : KeepsVariable p p' x := by
  intro r found
  obtain ⟨r', found', here⟩ := writes.regions x.1 r found
  exact ⟨r', found', here.models .node x.2.variableName not, fun data stored => here.stored stored not⟩

theorem refusedUpdate_of_ran {d d' : Device β α} {solution : Array α} {fault : UpdateError β}
    (distinct : DistinctVariables d.bulkEquations) (ran : d.update solution = (.error (.update fault), d')) :
    solution.size ≠ d.rowCount ∧ d' = d ∨ ∃ before x after, RefusedUpdate d solution fault d' before x after := by
  have outcome := d.update_outcome solution
  rw [ran] at outcome
  cases outcome with
  | wrongSize wrong => exact .inl ⟨wrong, rfl⟩
  | stopped sized ending =>
    cases ending with
    | @refused s before after updated x fault r' log split turns stop =>
      have models : d.parts.WritesOnly (Variables d.parts before) (s.parts.setRegion x.1 r') :=
        turns.writesOnly.trans (stop.unwritten.mono fun _ _ _ => False.elim)
      obtain ⟨distinct', -, precedes⟩ := List.pairwise_append.mp (split ▸ distinct)
      exact .inr ⟨before, x, after, {
        split
        taken := ⟨updated, rfl, turns.allTaken distinct' stop.unwritten⟩
        refused := ⟨s, updated, r', turns, stop⟩
        later := fun y member => keepsVariable_of_writesOnly models fun ⟨_, z, before, _, region, name⟩ =>
          precedes z before y member region name
        models
        rest := rfl }⟩

theorem interruptedUpdate_of_ran {d d' : Device β α} {solution : Array α} {fault : AssemblyError}
    (distinct : DistinctVariables d.bulkEquations)
    (ran : d.update solution = (.error (.assembly fault), d')) : InterruptedUpdate d solution d' := by
  have outcome := d.update_outcome solution
  rw [ran] at outcome
  cases outcome with
  | stopped sized ending => nomatch ending
  | interrupted carried kept =>
    exact ⟨carried.turns.allTaken distinct carried.unwritten, carried.circuit, kept⟩

/-- What an update that fails has changed, next to one that succeeds. -/
theorem failing_update :
    (∀ (e : BulkEquation β) (settings : UpdateSettings β) (raw : Array α) (r r' : Region β α) (log log' : Log)
        (fault : UpdateError β), e.update settings raw r log = (.error fault, r', log') →
      r.Unaltered r' ∧ ∀ data, (r.read .node e.variableName).1 = .ok data →
        (r'.read .node e.variableName).1 = .ok data) ∧
    ∀ (d d' : Device β α) (solution : Array α), DistinctVariables d.bulkEquations →
      (∀ stats, d.update solution = (.ok stats, d') →
        AllTaken d.settings.update solution d.updateStart d.bulkEquations d'.bulkEquations d'.parts) ∧
      (∀ fault, d.update solution = (.error (.update fault), d') →
        solution.size ≠ d.rowCount ∧ d' = d ∨
          ∃ before x after, RefusedUpdate d solution fault d' before x after) ∧
      ∀ fault, d.update solution = (.error (.assembly fault), d') → InterruptedUpdate d solution d' := by
  refine ⟨fun e settings raw r r' log log' fault ran => ?_, fun d d' solution distinct =>
    ⟨fun stats ran => taken_of_update distinct ran, fun fault ran => refusedUpdate_of_ran distinct ran,
      fun fault ran => interruptedUpdate_of_ran distinct ran⟩⟩
  refine ⟨BulkEquation.unaltered_of_update_error ran, fun data read => ?_⟩
  rw [BulkEquation.region_of_update_error ran, Region.read_of_atHand (Region.atHand_of_read read)]

/-- One update is refused in its second turn, the other fails on a contact after both turns. -/
theorem failing_update_refused_and_interrupted :
    let mesh : Mesh ℚ := ⟨.segment, #[⟨0, 0, 0⟩, ⟨1, 0, 0⟩], #[⟨0, 1⟩], #[]⟩
    let start : List (Change ℚ ℚ) := [.addRegion "bulk" mesh, .addContact "end" "bulk" [0],
      .addCircuitNode "V" 3, .addEquation "bulk" { name := "eu", variableName := "u" }]
    let d : Device ℚ ℚ := after { name := "device", settings := {} }
      (start ++ [.addEquation "bulk" { name := "ef", variableName := "f", policy := .positive }, .claimRows])
    let c : Device ℚ ℚ := after { name := "device", settings := {} }
      (start ++ [.addContactEquation
        { name := "eu", contact := "end", models := { current := { node := some "j" } } }, .claimRows])
    (∃ before x after fault, RefusedUpdate d #[1, 2, 3, 4, 5] fault (d.update #[1, 2, 3, 4, 5]).2 before x after) ∧
      InterruptedUpdate c #[1, 2, 3] (c.update #[1, 2, 3]).2 ∧
      ∀ r ∈ d.parts.regions.get? "bulk", ∀ f ∈ d.bulkEquations[1]?,
        r.Unaltered (f.2.update {} #[3, 4] r {}).2.1 := by
  intro mesh start d c
  have distinct : DistinctVariables d.bulkEquations ∧ DistinctVariables c.bulkEquations := by
    unfold DistinctVariables
    decide +kernel
  have sized : (#[1, 2, 3, 4, 5] : Array ℚ).size = d.rowCount := by decide +kernel
  have refused : (match (d.update #[1, 2, 3, 4, 5]).1 with
      | .error (.update _) => true
      | _ => false) = true := by
    decide +kernel
  have failed : (c.update #[1, 2, 3]).1.toBool = false := by decide +kernel
  have moved : c.circuit.value? "V" = some 3 ∧ (c.update #[1, 2, 3]).2.circuit.value? "V" = some 6 := by
    decide +kernel
  have stops : ∀ r ∈ d.parts.regions.get? "bulk", ∀ f ∈ d.bulkEquations[1]?,
      (f.2.update {} #[3, 4] r {}).1.toBool = false := by
    decide +kernel
  clear_value d c
  have one := (@failing_update ℚ ℚ _ _ _).1
  have all := (@failing_update ℚ ℚ _ _ _).2
  refine ⟨?_, ?_, fun r found f member => ?_⟩
  · split at refused
    · next fault ran =>
      obtain ⟨wrong, -⟩ | ⟨before, x, after, stopped⟩ :=
        (all d _ _ distinct.1).2.1 fault (Prod.ext ran rfl)
      · exact absurd sized wrong
      · exact ⟨before, x, after, fault, stopped⟩
    · cases refused
  · -- The circuit node has moved, so it was not an equation that failed.
    have outcome := c.update_outcome #[1, 2, 3]
    rcases ran : c.update #[1, 2, 3] with ⟨result, c'⟩
    rw [ran] at outcome failed moved
    cases outcome with
    | wrongSize => exact absurd (moved.1.symm.trans moved.2) (by decide)
    | stopped => exact absurd (moved.1.symm.trans moved.2) (by decide)
    | interrupted => exact (all c _ _ distinct.2).2.2 _ ran
    | done => cases failed
  · specialize stops r found f member
    cases ran : (f.2.update {} #[3, 4] r {}).1 with
    | error fault => exact (one f.2 {} #[3, 4] r _ {} _ fault (Prod.ext ran rfl)).1
    | ok e' =>
      rw [ran] at stops
      cases stops

/-- The equation of `w` comes after the one that refuses, but `w` is computed from `u`, which is solved for
before. -/
theorem later_variable_follows :
    let mesh : Mesh ℚ := ⟨.segment, #[⟨0, 0, 0⟩, ⟨1, 0, 0⟩], #[⟨0, 1⟩], #[]⟩
    let d : Device ℚ ℚ := after { name := "device", settings := {} }
      [.addRegion "bulk" mesh, .region "bulk" (.setUniform .node "u" 1),
        .region "bulk" (.declare .node "w" ∅ (.product [.constant 2, .model "u"])),
        .addEquation "bulk" { name := "eu", variableName := "u" },
        .addEquation "bulk" { name := "ef", variableName := "f", policy := .positive },
        .addEquation "bulk" { name := "ew", variableName := "w" }, .claimRows]
    let d' := (d.update #[1, 1, 0, 0, 0, 0]).2
    let refused := match (d.update #[1, 1, 0, 0, 0, 0]).1 with
      | .error (.update (.nonPositive scope name node value)) => some (scope.equation, name, node, value)
      | _ => none
    let w (d : Device ℚ ℚ) := (d.parts.regions.get? "bulk").bind fun r =>
      (r.read .node "w").1.toOption.map Field.toArray
    d.Reached ∧ DistinctVariables d.bulkEquations ∧ refused = some (some "ef", "f", 0, 0) ∧
      w d = some #[2, 2] ∧ w d' = some #[4, 4] := by
  intro mesh d d' refused w
  refine ⟨reached_after (by decide +kernel) _, ?_, by decide +kernel, by decide +kernel, by decide +kernel⟩
  unfold DistinctVariables
  decide +kernel

end Device

end FiniteVolume
