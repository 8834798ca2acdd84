import FiniteVolume.Device.Update
import FiniteVolume.Proofs.Device.Parts
import FiniteVolume.Proofs.Equation.Steps

/-!
What the passes of a device consist of.

A pass over the parts of a device is one step after the other on a region, or on an interface with its
regions (`Parts.RunsOn`, `Device.composed_boundaryPass`, `Device.composed_bulkPass`). Whatever such a pass
does is independent of earlier output (`Parts.framed`), and it writes a fatal record exactly when it ends
with a complaint (`Parts.candid`).
-/
namespace FiniteVolume

open Pass

variable {β α : Type}

/-! ## Steps on parts -/

namespace Pass

variable {σ τ ρ : Type} {part? : σ → Option τ} {put : σ → τ → σ} {step : Pass τ α ρ}

theorem Framed.onPart? (framed : Framed step) : Framed (Pass.onPart? part? put step) := by
  refine ⟨fun s before => ?_⟩
  cases found : part? s.owner with
  | none =>
    rw [run_onPart?_of_missing found,
      run_onPart?_of_missing (s := { s with out := before.append s.out }) found]
  | some t =>
    rw [run_onPart? found, run_onPart? (s := { s with out := before.append s.out }) found]
    have ran := framed.ran { s with owner := t } before
    dsimp only at ran ⊢
    rw [ran]

theorem Candid.onPart? (candid : Candid step) : Candid (Pass.onPart? part? put step) := by
  refine ⟨fun s => ?_⟩
  cases found : part? s.owner with
  | none =>
    rw [run_onPart?_of_missing found]
    exact .ok none
  | some t =>
    rw [run_onPart? found]
    have tells := candid.ran { s with owner := t }
    cases ran : (step { s with owner := t }).1 with
    | ok x =>
      rw [ran] at tells
      exact tells.of_ok
    | error e =>
      rw [ran] at tells
      exact tells.of_error Iff.rfl

theorem failed_onPart? {s : PassState σ α} {e : AssemblyError}
    (failed : (Pass.onPart? part? put step s).1 = .error e) :
    ∃ t, part? s.owner = some t ∧ (step { s with owner := t }).1 = .error e := by
  cases found : part? s.owner with
  | none =>
    rw [run_onPart?_of_missing found] at failed
    cases failed
  | some t =>
    rw [run_onPart? found] at failed
    refine ⟨t, rfl, ?_⟩
    cases ran : (step { s with owner := t }).1 with
    | ok x =>
      rw [ran] at failed
      cases failed
    | error e' =>
      rw [ran] at failed
      cases failed
      rfl

theorem Mirrors.onPart? {φ : σ → σ} {ψ : τ → τ} {I : σ → Prop} {J : τ → Prop} (mirrors : Mirrors ψ J step)
    (part_image : ∀ o, part? (φ o) = (part? o).map ψ) (put_image : ∀ o t, put (φ o) (ψ t) = φ (put o t))
    (inside : ∀ o t, I o → part? o = some t → J t) (outside : ∀ o t, I o → J t → I (put o t)) :
    Mirrors φ I (Pass.onPart? part? put step) := by
  intro s holds
  have there := part_image s.owner
  cases found : part? s.owner with
  | none =>
    rw [found] at there
    rw [run_onPart?_of_missing found, run_onPart?_of_missing (s := image φ s) there]
    exact ⟨rfl, holds⟩
  | some t =>
    rw [found] at there
    obtain ⟨same, kept⟩ := mirrors { s with owner := t } (inside s.owner t holds found)
    rw [run_onPart? found, run_onPart? (s := image φ s) there]
    dsimp only [image] at same ⊢
    rw [same, put_image]
    exact ⟨rfl, outside _ _ holds kept⟩

end Pass

variable [BaseScalar β] [Scalar α]

/-! ## Reads -/

theorem Term.tells_reportNotes (scope : Scope) (notes : List Note) (log : Log) :
    Log.Tells AssemblyError.IsComplaint log (Term.reportNotes scope notes log)
      (.ok () : Except AssemblyError Unit) := by
  induction notes generalizing log with
  | nil => exact .ok ()
  | cons note rest ih => exact (Log.Tells.mild (by decide) scope note.text ()).trans (ih _)

omit [Scalar α] in
/-- A step that only moves remarks to the log, and fails for a read if at all. -/
theorem Pass.Candid.of_notes {σ ρ : Type} {a : Pass σ α ρ} {scope : Scope}
    (log : ∀ s, ∃ notes, (a s).2.log = Term.reportNotes scope notes s.log)
    (fails : ∀ s e, (a s).1 = .error e → ∃ scope cause, e = .model scope cause) : Candid a := by
  refine ⟨fun s => ?_⟩
  obtain ⟨notes, same⟩ := log s
  have tells := Term.tells_reportNotes scope notes s.log
  rw [same]
  cases ran : (a s).1 with
  | ok x => exact tells.of_ok
  | error e =>
    obtain ⟨scope, cause, rfl⟩ := fails s e ran
    exact tells.trans (.error id)

theorem Term.failed_fetch {site : Site β} {d : Domain} {name : String}
    {s : PassState (Region β α) α} {e : AssemblyError} (failed : (fetch site d name s).1 = .error e) :
    ∃ scope cause, e = .model scope cause := by
  change (Region.read d name s.owner).1.mapError (AssemblyError.model site.scope) = .error e at failed
  cases read : (Region.read d name s.owner).1 with
  | ok data => simp [read, Except.mapError] at failed
  | error cause =>
    rw [read] at failed
    cases failed
    exact ⟨_, cause, rfl⟩

theorem InterfaceEquation.failed_read {site : Site β} {name : String}
    {s : PassState (Coupled β α) α} {e : AssemblyError} (failed : (read site name s).1 = .error e) :
    ∃ scope cause, e = .model scope cause := by
  unfold read at failed
  dsimp only at failed
  rcases result : s.owner.read name with ⟨cause | data, c⟩
  · rw [result] at failed
    cases failed
    exact ⟨_, cause, rfl⟩
  · rw [result] at failed
    cases failed

namespace Region.ReadsModel

variable {ρ : Type} {a : RegionPass β α ρ} (reads : ReadsModel ρ a)

include reads

theorem framed : Framed a := by
  cases reads
  exact ⟨fun _ _ => rfl⟩

theorem candid : Candid a := by
  cases reads
  exact .of_notes (fun _ => ⟨_, rfl⟩) fun _ _ => Term.failed_fetch

theorem failed {rules : Rules (Region β α) α} {may : Effect → Prop} {s : PassState (Region β α) α}
    {e : AssemblyError} (failed : (a s).1 = .error e) : rules.Fails may e := by
  cases reads
  obtain ⟨scope, cause, rfl⟩ := Term.failed_fetch failed
  trivial

end Region.ReadsModel

section

variable {settings : Settings β} {may : Effect → Prop} {ρ : Type}

theorem Region.framed {a : RegionPass β α ρ} (composed : Composed (Region.rules settings) may a) :
    Framed a := composed.framed fun _ _ => ReadsModel.framed

theorem Region.candid {a : RegionPass β α ρ} (composed : Composed (Region.rules settings) may a) :
    Candid a := composed.candid fun _ _ => ReadsModel.candid

theorem Region.failed {a : RegionPass β α ρ} (composed : Composed (Region.rules settings) may a)
    {s : PassState (Region β α) α} {e : AssemblyError} (failed : (a s).1 = .error e) :
    (Region.rules settings : Rules (Region β α) α).Fails may e :=
  composed.failed (fun _ _ reads _ _ => ReadsModel.failed reads) failed

namespace Coupled.ReadsModel

variable {a : CoupledPass β α ρ} (reads : ReadsModel settings ρ a)

include reads

theorem framed : Framed a := by
  cases reads with
  | read site name => exact ⟨fun _ _ => rfl⟩
  | onRegion side composed => exact (Region.framed composed).onPart

theorem candid : Candid a := by
  cases reads with
  | read site name => exact .of_notes (fun _ => ⟨_, rfl⟩) fun _ _ => InterfaceEquation.failed_read
  | onRegion side composed => exact (Region.candid composed).onPart

theorem failed {s : PassState (Coupled β α) α} {e : AssemblyError} (failed : (a s).1 = .error e) :
    (Coupled.rules settings : Rules (Coupled β α) α).Fails may e := by
  cases reads with
  | read site name =>
    obtain ⟨scope, cause, rfl⟩ := InterfaceEquation.failed_read failed
    trivial
  | onRegion side composed =>
    have fails := Region.failed composed failed
    cases e <;> first | exact fails | exact fails.elim

end Coupled.ReadsModel

theorem Coupled.framed {a : CoupledPass β α ρ} (composed : Composed (Coupled.rules settings) may a) :
    Framed a := composed.framed fun _ _ => ReadsModel.framed

theorem Coupled.candid {a : CoupledPass β α ρ} (composed : Composed (Coupled.rules settings) may a) :
    Candid a := composed.candid fun _ _ => ReadsModel.candid

theorem Coupled.failed {a : CoupledPass β α ρ} (composed : Composed (Coupled.rules settings) may a)
    {s : PassState (Coupled β α) α} {e : AssemblyError} (failed : (a s).1 = .error e) :
    (Coupled.rules settings : Rules (Coupled β α) α).Fails may e :=
  composed.failed (fun _ _ reads _ _ => ReadsModel.failed reads) failed

end

/-! ## Passes over parts -/

namespace Parts

/-- The step works on a region or on an interface with its regions. -/
inductive RunsOn (settings : Settings β) (may : Effect → Prop) : ∀ ρ : Type, Pass (Parts β α) α ρ → Prop
  | region {ρ : Type} (name : String) {step : RegionPass β α ρ}
    (composed : Composed (Region.rules settings) may step) :
    RunsOn settings may (Option ρ) (onRegion name step)
  | coupled {ρ : Type} (name : String) {step : CoupledPass β α ρ}
    (composed : Composed (Coupled.rules settings) may step) :
    RunsOn settings may (Option ρ) (onCoupled name step)

/-- Steps over the parts of a device, each entitled to output of some kinds. They look at nothing but what
their regions and interfaces declare. -/
def rules (settings : Settings β) (may : Effect → Prop) : Rules (Parts β α) α where
  Alike _ _ := True
  refl _ := trivial
  Reads := RunsOn settings may
  Refuses := settings.Refuses
  complaint _ := Settings.isComplaint_of_refuses

variable {settings : Settings β} {may : Effect → Prop} {ρ : Type} {a : Pass (Parts β α) α ρ}

theorem RunsOn.framed (runs : RunsOn settings may ρ a) : Framed a := by
  cases runs with
  | region name composed =>
    rw [onRegion_eq]
    exact (Region.framed composed).onPart?
  | coupled name composed =>
    rw [onCoupled_eq]
    exact (Coupled.framed composed).onPart?

theorem RunsOn.candid (runs : RunsOn settings may ρ a) : Candid a := by
  cases runs with
  | region name composed =>
    rw [onRegion_eq]
    exact (Region.candid composed).onPart?
  | coupled name composed =>
    rw [onCoupled_eq]
    exact (Coupled.candid composed).onPart?

theorem RunsOn.failed (runs : RunsOn settings may ρ a) {s : PassState (Parts β α) α}
    {e : AssemblyError} (failed : (a s).1 = .error e) :
    (rules settings may : Rules (Parts β α) α).Fails may e := by
  cases runs with
  | region name composed =>
    rw [onRegion_eq] at failed
    obtain ⟨r, -, failed⟩ := failed_onPart? failed
    exact Region.failed composed failed
  | coupled name composed =>
    rw [onCoupled_eq] at failed
    obtain ⟨c, -, failed⟩ := failed_onPart? failed
    exact Coupled.failed composed failed

theorem framed (composed : Composed (rules settings may) may a) : Framed a :=
  composed.framed fun _ _ => RunsOn.framed

theorem candid (composed : Composed (rules settings may) may a) : Candid a :=
  composed.candid fun _ _ => RunsOn.candid

theorem failed (composed : Composed (rules settings may) may a) {s : PassState (Parts β α) α}
    {e : AssemblyError} (failed : (a s).1 = .error e) :
    (rules settings may : Rules (Parts β α) α).Fails may e :=
  composed.failed (fun _ _ runs _ _ => RunsOn.failed runs) failed

theorem composed_onRegion {name : String} {step : RegionPass β α Unit}
    (composed : Composed (Region.rules settings) may step) :
    Composed (rules settings may) may (discard (onRegion name step)) :=
  Composed.map (.read (RunsOn.region name composed)) _

theorem composed_onCoupled {name : String} {step : CoupledPass β α Unit}
    (composed : Composed (Coupled.rules settings) may step) :
    Composed (rules settings may) may (discard (onCoupled name step)) :=
  Composed.map (.read (RunsOn.coupled name composed)) _

theorem composed_integrate [Precision β α] (settings : Settings β) (region : String)
    (e : ContactEquation β) (mask : Array Bool) : Composed (rules settings nothing) nothing
      (onRegion region (e.integrate mask settings) : Pass (Parts β α) α _) :=
  .read (.region region e.composed_integrate)

end Parts

/-! ## Passes of a device -/

namespace Device

variable (d : Device β α) {select : Selector} (time : TimeMode)

theorem composed_boundaryPass (numeric : select ≠ .rows) :
    Composed (Parts.rules d.settings numbers) numbers (d.boundaryPass select time) := by
  refine (Composed.forM fun x => ?_).bind fun _ => .forM fun x => ?_
  · exact Parts.composed_onRegion (x.2.1.splits_assemble.composed numeric)
  · exact Parts.composed_onCoupled (x.2.1.splits_assemble.composed numeric)

theorem composed_bulkPass (numeric : select ≠ .rows) :
    Composed (Parts.rules d.settings numbers) numbers (d.bulkPass select time) :=
  .forM fun x => Parts.composed_onRegion (x.2.splits_assemble.composed numeric)

theorem composed_claims : Composed (Parts.rules d.settings (· = .rows)) (· = .rows)
    (d.boundaryPass .rows time) := by
  refine (Composed.forM fun x => ?_).bind fun _ => .forM fun x => ?_
  · exact Parts.composed_onRegion x.2.1.composed_assemble_rows
  · exact Parts.composed_onCoupled x.2.1.composed_assemble_rows

theorem fails_numericPass (numeric : select ≠ .rows) (out : Records α) {e : DeviceError β}
    (failed : (d.numericPass select time out).1 = .error e) : ∃ cause, e = .assembly cause ∧
      (Parts.rules d.settings numbers : Rules (Parts β α) α).Fails numbers cause := by
  unfold numericPass at failed
  split at failed
  next cause d' out' ran =>
    cases failed
    exact ⟨cause, rfl, Parts.failed (d.composed_boundaryPass time numeric) (congrArg Prod.fst ran)⟩
  next d' out' ran =>
    have settings : d.settings = d'.settings := congrArg (·.2.1.settings) ran
    split at failed
    next cause _ _ ran' =>
      cases failed
      rw [settings]
      exact ⟨cause, rfl, Parts.failed (d'.composed_bulkPass time numeric) (congrArg Prod.fst ran')⟩
    · cases failed

end Device

end FiniteVolume
