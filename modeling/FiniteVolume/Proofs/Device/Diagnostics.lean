import FiniteVolume.Proofs.Device.Cycle
import FiniteVolume.Proofs.Device.Steps

/-!
Fatal records and errors.

Every call that drives a device adds records to its log. One of them is fatal exactly if the call fails
for something other than a failed read or unusable arguments; and a missing model is a failure only where
its severity is fatal (`Device.fatal_iff_announced`).
-/
namespace FiniteVolume

open Pass

variable {β α ρ : Type} [BaseScalar β]

/-! ## Announced errors -/

/-- Recorded as fatal before the call fails. -/
def DeviceError.IsAnnounced : DeviceError β → Prop
  | assembly (.missingModel ..) => True
  | assembly (.missingEquation ..) => True
  | assembly (.missingCircuitNode ..) => True
  | assembly (.rowConflict _) => True
  | assembly .rowsNotClaimed => True
  | update (.nonPositive ..) => True
  | _ => False

/-- A missing model is an error where its severity is fatal. -/
def Settings.Permits (settings : Settings β) : DeviceError β → Prop
  | .assembly (.missingModel ..) => settings.missingModel = .fatal
  | _ => True

namespace Device

/-- The log grew, by a fatal record exactly if the result is an announced error, and the error is one
that the settings permit. -/
structure Accounts (settings : Settings β) (log log' : Log) (result : Except (DeviceError β) ρ) :
    Prop where
  tells : Log.Tells DeviceError.IsAnnounced log log' result
  permitted : ∀ e, result = .error e → settings.Permits e

namespace Accounts

variable {υ : Type} {settings : Settings β} {log log' log'' : Log}

theorem of_ok {x : ρ} (tells : Log.Tells DeviceError.IsAnnounced log log' (.ok x : Except (DeviceError β) ρ)) :
    Accounts settings log log' (.ok x) := ⟨tells, nofun⟩

theorem of_error {e : DeviceError β}
    (tells : Log.Tells DeviceError.IsAnnounced log log' (.error e : Except (DeviceError β) ρ))
    (permitted : settings.Permits e) : Accounts settings log log' (.error e : Except (DeviceError β) ρ) :=
  ⟨tells, fun _ same => Except.error.inj same ▸ permitted⟩

theorem trans {x : υ} {result : Except (DeviceError β) ρ}
    (first : Accounts settings log log' (.ok x : Except (DeviceError β) υ))
    (second : Accounts settings log' log'' result) : Accounts settings log log'' result :=
  ⟨first.tells.trans second.tells, second.permitted⟩

theorem ok {x : υ} (accounts : Accounts settings log log' (.ok x : Except (DeviceError β) υ)) (y : ρ) :
    Accounts settings log log' (.ok y : Except (DeviceError β) ρ) := .of_ok accounts.tells.of_ok

theorem error {e : DeviceError β}
    (accounts : Accounts settings log log' (.error e : Except (DeviceError β) υ)) :
    Accounts settings log log' (.error e : Except (DeviceError β) ρ) :=
  .of_error (accounts.tells.of_error Iff.rfl) (accounts.permitted e rfl)

end Accounts

/-! ## Passes -/

variable [Scalar α] {d : Device β α}

theorem accounts_of_composed {settings : Settings β} {may : Pass.Effect → Prop} {step : Pass (Parts β α) α ρ}
    (composed : Composed (Parts.rules settings may) may step) (numeric : ¬may .rows)
    (s : PassState (Parts β α) α) :
    Accounts settings s.log (step s).2.log ((step s).1.mapError .assembly) := by
  have tells := (Parts.candid composed).ran s
  cases ran : (step s).1 with
  | ok x =>
    rw [ran] at tells
    exact .of_ok tells.of_ok
  | error e =>
    rw [ran] at tells
    have fails := Parts.failed composed ran
    cases e with
    | missingModel => exact .of_error (tells.of_error Iff.rfl) fails
    | missingEquation | missingCircuitNode | model => exact .of_error (tells.of_error Iff.rfl) trivial
    | rowConflict => exact absurd fails numeric
    | rowsNotClaimed => exact fails.elim

theorem accounts_run {may : Pass.Effect → Prop} {step : Pass (Parts β α) α ρ} {out : Records α}
    {result : Except AssemblyError ρ} {d' : Device β α} {out' : Records α}
    (ran : d.run out step = (result, d', out'))
    (composed : Composed (Parts.rules d.settings may) may step) (numeric : ¬may .rows) :
    Accounts d.settings d.log d'.log (result.mapError .assembly) ∧ d'.settings = d.settings := by
  have accounts := accounts_of_composed composed numeric
    { owner := d.parts, rows := d.rows, log := d.log, out }
  cases ran
  exact ⟨accounts, rfl⟩

theorem accounts_numericPass {select : Selector} (numeric : select ≠ .rows) (time : TimeMode)
    (out : Records α) : Accounts d.settings d.log (d.numericPass select time out).2.1.log
      (d.numericPass select time out).1 := by
  have noRows : ¬numbers .rows := by simp [numbers]
  unfold numericPass
  rcases ran : d.run out (d.boundaryPass select time) with ⟨e | x, d', out'⟩
  · exact (accounts_run ran (d.composed_boundaryPass time numeric) noRows).1
  · obtain ⟨boundary, settings⟩ := accounts_run ran (d.composed_boundaryPass time numeric) noRows
    refine boundary.trans ?_
    dsimp only
    rcases ran' : d'.run {} (d'.bulkPass select time) with ⟨e | x, d'', bulk⟩
    all_goals
      have accounts := accounts_run ran' (d'.composed_bulkPass time numeric) noRows
      rw [settings] at accounts
      exact accounts.1

omit [Scalar α] in
theorem settings_checkLayout (d : Device β α) : d.checkLayout.settings = d.settings := by
  unfold checkLayout
  split
  · split <;> rfl
  · rfl

theorem settings_claimRows (d : Device β α) : d.claimRows.2.settings = d.settings := by
  rcases ran : d.claimPass with ⟨e | ⟨⟩, s⟩
  · obtain ⟨log, failed⟩ := claimRows_of_error ran
    rw [failed]
    rfl
  · rw [claimRows_of_ok ran]
    rfl

/-- A conflict of claims is recorded after the pass, everything else as it arises. -/
theorem accounts_claimRows (d : Device β α) :
    Accounts d.settings d.log d.claimRows.2.log d.claimRows.1 := by
  have composed := d.prepared.composed_claims .steady
  have tells : Log.Tells AssemblyError.IsComplaint d.log _ _ :=
    (Parts.candid composed).ran (d.prepared.passState {})
  change Log.Tells AssemblyError.IsComplaint d.log d.claimPass.2.log d.claimPass.1 at tells
  rcases ran : d.claimPass with ⟨e | ⟨⟩, s⟩
  · rw [ran] at tells
    have fails := Parts.failed composed (congrArg Prod.fst ran)
    unfold claimRows
    dsimp only
    split
    next ended => cases (run_prepared ran).symm.trans ended
    next ended =>
      cases (run_prepared ran).symm.trans ended
      cases e with
      | missingModel => exact .of_error (tells.of_error Iff.rfl) fails
      | missingEquation | missingCircuitNode | model =>
        exact .of_error (tells.of_error Iff.rfl) trivial
      | rowConflict conflict =>
        exact .of_error ((tells.quiet id ()).trans (.fatal trivial _ _)) trivial
      | rowsNotClaimed => exact fails.elim
  · rw [ran] at tells
    rw [claimRows_of_ok ran]
    exact .of_ok tells.of_ok

theorem accounts_assemble (d : Device β α) (select : Selector) (time : TimeMode) (out : Records α) :
    Accounts d.settings d.log (d.assemble select time out).2.1.log (d.assemble select time out).1 := by
  unfold assemble
  split
  · exact d.accounts_claimRows
  next numeric =>
    rw [← d.log_checkLayout, ← d.settings_checkLayout]
    dsimp only
    split
    · exact accounts_numericPass numeric time out
    · exact .of_error (.fatal trivial _ _) trivial

theorem accounts_assembleCycle (d : Device β α) (select : Selector) (time : TimeMode) (out : Records α) :
    Accounts d.settings d.log (d.assembleCycle select time out).2.1.log
      (d.assembleCycle select time out).1 := by
  have claimed := d.accounts_claimRows
  have settings := d.settings_claimRows
  unfold assembleCycle
  split
  next ran =>
    rw [ran] at claimed
    exact claimed
  next d' ran =>
    rw [ran] at claimed settings
    have assembled := d'.accounts_assemble select time out
    rw [settings] at assembled
    exact claimed.trans assembled

/-! ## Integration and update -/

variable [Precision β α]

theorem accounts_integrateFrom (settings : Settings β)
    (items : List (String × ContactEquation β × Array Bool)) (s : PassState (Parts β α) α) :
    Accounts settings s.log (integrateFrom settings items s).2.2.log
      ((integrateFrom settings items s).1.mapError .assembly) := by
  induction items generalizing s with
  | nil => exact .of_ok (.ok ())
  | cons x rest ih =>
    obtain ⟨region, e, mask⟩ := x
    have integrated := accounts_of_composed (Parts.composed_integrate settings region e mask) id s
    unfold integrateFrom
    split
    next ran =>
      rw [ran] at integrated
      exact integrated.error
    next ran =>
      rw [ran] at integrated
      exact integrated.trans (ih _)

theorem accounts_integrateContacts (d : Device β α) :
    Accounts d.settings d.log d.integrateContacts.2.log d.integrateContacts.1 :=
  accounts_integrateFrom d.settings d.ownedNodes { owner := d.parts, log := d.log }

/-- A clamped node is a warning, a value that is not positive the end. -/
theorem tells_applyFrom (site : UpdateSite β) (node : Nat) (stats : UpdateStats β) (log : Log)
    (items : List (α × α)) : Log.Tells (fun e => DeviceError.IsAnnounced (.update e)) log
      (site.applyFrom node stats log items).2.2 (site.applyFrom node stats log items).1 := by
  induction items generalizing node stats log with
  | nil => exact .ok stats
  | cons x rest ih =>
    obtain ⟨old, raw⟩ := x
    unfold UpdateSite.applyFrom
    split
    · exact .fatal trivial _ _
    next n taken =>
      have applied := ih (node + 1) (stats.record site.settings node n) (site.warn node n.clamped log)
      cases clamped : n.clamped with
      | false =>
        rw [clamped] at applied
        exact applied
      | true =>
        rw [clamped] at applied
        exact (Log.Tells.mild (by decide) _ _ ()).trans applied

theorem tells_apply (site : UpdateSite β) (values raw : Array α) (log : Log) :
    Log.Tells (fun e => DeviceError.IsAnnounced (.update e)) log (site.apply values raw log).2.2
      (site.apply values raw log).1 := by
  unfold UpdateSite.apply
  split
  · exact .error id
  · exact tells_applyFrom site 0 {} log (values.toList.zip raw.toList)

theorem tells_update (e : BulkEquation β) (settings : UpdateSettings β) (raw : Array α)
    (r : Region β α) (log : Log) : Log.Tells (fun e => DeviceError.IsAnnounced (.update e)) log
      (e.update settings raw r log).2.2 (e.update settings raw r log).1 := by
  unfold BulkEquation.update
  dsimp only
  split
  · exact .error id
  next old r' read =>
    have applied := tells_apply ⟨e.policy, settings, e.variableName, e.scope r⟩ old.toArray raw log
    split
    next ran =>
      rw [ran] at applied
      exact applied.of_error Iff.rfl
    next ran =>
      rw [ran] at applied
      split
      · exact applied.trans (.error id)
      · exact applied.of_ok

theorem accounts_updateFrom (settings : Settings β) (solution : Array α) (stats : UpdateStats β)
    (items : List (String × BulkEquation β)) (parts : Parts β α) (log : Log) :
    Accounts settings log (updateFrom settings.update solution stats items parts log).2.2.2
      (updateFrom settings.update solution stats items parts log).1 := by
  induction items generalizing stats parts log with
  | nil => exact .of_ok (.ok stats)
  | cons x rest ih =>
    obtain ⟨region, e⟩ := x
    unfold updateFrom
    split
    · exact ih stats parts log
    next r start found =>
      dsimp only
      split
      · exact .of_error (.error id) trivial
      · have updated := tells_update e settings.update (solution.extract start (start + r.nodeCount))
          r log
        split
        next ran =>
          rw [ran] at updated
          exact .of_error (updated.of_error Iff.rfl) trivial
        next ran =>
          rw [ran] at updated
          exact (Accounts.of_ok (x := stats) updated.of_ok).trans (ih _ _ _)

theorem settings_updateCircuit (d : Device β α) (solution : Array α) :
    (d.updateCircuit solution).settings = d.settings ∧ (d.updateCircuit solution).log = d.log := by
  refine updateCircuit_induction (motive := fun d' => d'.settings = d.settings ∧ d'.log = d.log)
    ⟨rfl, rfl⟩ (fun d' name value kept => ?_) solution
  unfold setCircuitValue
  split
  all_goals exact kept

theorem accounts_update (d : Device β α) (solution : Array α) :
    Accounts d.settings d.log (d.update solution).2.log (d.update solution).1 := by
  unfold update
  split
  · exact .of_error (.error id) trivial
  · have updated := accounts_updateFrom d.settings solution {} d.bulkEquations d.parts d.log
    split
    next ran =>
      rw [ran] at updated
      exact updated.error
    next bulkEquations parts log ran =>
      rw [ran] at updated
      have integrated := accounts_integrateContacts
        ({ d with bulkEquations, parts, log }.updateCircuit solution)
      obtain ⟨settings, log⟩ := settings_updateCircuit { d with bulkEquations, parts, log } solution
      rw [settings, log] at integrated
      have accounts := updated.trans integrated
      dsimp only
      split
      next ran =>
        rw [ran] at accounts
        exact accounts.error
      next ran =>
        rw [ran] at accounts
        exact accounts.ok _

/-! ## Every call -/

inductive Call (α : Type) where
  | claimRows
  | assemble (select : Selector) (time : TimeMode) (out : Records α)
  | assembleCycle (select : Selector) (time : TimeMode) (out : Records α)
  | update (solution : Array α)
  | integrateContacts

/-- What a call ends with, and the device after it. -/
def Call.run (call : Call α) (d : Device β α) : Except (DeviceError β) Unit × Device β α :=
  match call with
  | claimRows => d.claimRows
  | assemble select time out => let (result, d, _) := d.assemble select time out; (result, d)
  | assembleCycle select time out => let (result, d, _) := d.assembleCycle select time out; (result, d)
  | update solution => let (result, d) := d.update solution; (result.map fun _ => (), d)
  | integrateContacts => d.integrateContacts

/-- A call writes a fatal record exactly if it fails for a missing model, slot or circuit node, for claims
that conflict or are not there, or for a value that is not positive; and where missing models are no more
than errors, it never fails for one. -/
theorem fatal_iff_announced (d : Device β α) (call : Call α) : ∃ written : Log,
    (call.run d).2.log = d.log.append written ∧
    (written.hasFatal = true ↔ ∃ e, (call.run d).1 = .error e ∧ e.IsAnnounced) ∧
    (d.settings.missingModel = .error → ∀ scope model domain,
      (call.run d).1 ≠ .error (.assembly (.missingModel scope model domain))) := by
  have accounts : Accounts d.settings d.log (call.run d).2.log (call.run d).1 := by
    cases call with
    | claimRows => exact d.accounts_claimRows
    | assemble select time out => exact d.accounts_assemble select time out
    | assembleCycle select time out => exact d.accounts_assembleCycle select time out
    | integrateContacts => exact d.accounts_integrateContacts
    | update solution =>
      have accounts := d.accounts_update solution
      unfold Call.run
      dsimp only
      cases ran : (d.update solution).1 with
      | ok stats =>
        rw [ran] at accounts
        exact accounts.ok ()
      | error e =>
        rw [ran] at accounts
        exact accounts.error
  obtain ⟨⟨written, log, announced⟩, permitted⟩ := accounts
  refine ⟨written, log, announced, fun mild scope model domain failed => ?_⟩
  have fatal : d.settings.missingModel = .fatal := permitted _ failed
  cases mild.symm.trans fatal

end Device

end FiniteVolume
