import FiniteVolume.Proofs.Assembly.Pass
import FiniteVolume.Proofs.Log
import FiniteVolume.Proofs.Query

/-!
What the steps of a pass consist of.

Every step is made of reads of models, looks at declarations, records to the log, complaints that end
the pass, and output of the kinds it is entitled to (`Pass.Composed`). What holds of these and of two
steps in a row holds of every equation: what happens does not depend on earlier output
(`Composed.framed`), an owner stays what reads make of it (`Composed.keeps`), and a fatal record is
written exactly when the pass ends with a complaint (`Composed.candid`).
-/
namespace FiniteVolume

/-! ## Failures and output -/

namespace AssemblyError

/-- Something is missing that a step complains about before it fails. -/
def IsComplaint : AssemblyError → Prop
  | missingModel .. | missingEquation .. | missingCircuitNode .. => True
  | rowConflict _ | rowsNotClaimed | model .. => False

end AssemblyError

namespace Records

variable {α : Type}

theorem append_addMatrix (before r : Records α) (records : List (MatrixRecord α)) :
    (before.append r).addMatrix records = before.append (r.addMatrix records) := by
  simp [append, addMatrix]

theorem append_addResidual (before r : Records α) (records : List (ResidualRecord α)) :
    (before.append r).addResidual records = before.append (r.addResidual records) := by
  simp [append, addResidual]

end Records

namespace Pass

variable {σ τ α ρ υ ι : Type}

/-! ## Steps -/

/-- What a step may do besides reading. -/
inductive Effect where
  | matrix
  | residual
  | rows
  deriving DecidableEq

/-- What is common to the steps over owners of a kind. -/
structure Rules (σ α : Type) where
  /-- The owners have the same declarations. -/
  Alike : σ → σ → Prop
  refl : ∀ o, Alike o o
  /-- The step reads models, or works on a part of the owner. -/
  Reads : ∀ ρ : Type, Pass σ α ρ → Prop
  /-- What may be complained about. -/
  Refuses : AssemblyError → Prop
  complaint : ∀ e, Refuses e → e.IsComplaint

/-- The step consists of reads, looks at declarations, records to the log, complaints and output of the
kinds it is entitled to. -/
inductive Composed (rules : Rules σ α) (may : Effect → Prop) : ∀ {ρ : Type}, Pass σ α ρ → Prop
  | pure {ρ : Type} (x : ρ) : Composed rules may (Pure.pure x : Pass σ α ρ)
  | bind {ρ υ : Type} {a : Pass σ α ρ} {f : ρ → Pass σ α υ} (first : Composed rules may a)
    (second : ∀ x, Composed rules may (f x)) : Composed rules may (a >>= f)
  | look {ρ : Type} {f : PassState σ α → Pass σ α ρ}
    (same : ∀ s s', rules.Alike s.owner s'.owner → f s' = f s)
    (each : ∀ s, Composed rules may (f s)) : Composed rules may (MonadState.get >>= f)
  | read {ρ : Type} {a : Pass σ α ρ} (reads : rules.Reads ρ a) : Composed rules may a
  | report {severity : Severity} (mild : severity ≠ .fatal) (scope : Scope) (message : String) :
    Composed rules may (Pass.report severity scope message)
  | refuse {ρ : Type} {e : AssemblyError} (refuses : rules.Refuses e) (scope : Scope) (message : String) :
    Composed rules may (Pass.report .fatal scope message >>= fun _ => (throw e : Pass σ α ρ))
  | fault {ρ : Type} (scope : Scope) (cause : ModelError) :
    Composed rules may (throw (.model scope cause) : Pass σ α ρ)
  | matrix (allowed : may .matrix) (records : List (MatrixRecord α)) :
    Composed rules may (Pass.addMatrix records)
  | residual (allowed : may .residual) (records : List (ResidualRecord α)) :
    Composed rules may (Pass.addResidual records)
  | rows (allowed : may .rows) (row : Nat) (move : RowMove) : Composed rules may (Pass.claimRow row move)

variable {rules : Rules σ α} {may may' : Effect → Prop} {a : Pass σ α ρ} {f : ρ → Pass σ α υ}

theorem claimRow_eq (row : Nat) (move : RowMove) (s : PassState σ α) :
    claimRow row move s = match s.rows.claim row move with
      | .ok rows => (.ok (), { s with rows })
      | .error conflict => (.error (.rowConflict conflict), s) := by
  unfold claimRow
  rw [bind_get]
  cases s.rows.claim row move <;> rfl

theorem onPart_eq {part : σ → τ} {put : σ → τ → σ} {step : Pass τ α ρ} (s : PassState σ α) :
    onPart part put step s = ((step { s with owner := part s.owner }).1,
      { (step { s with owner := part s.owner }).2 with
        owner := put s.owner (step { s with owner := part s.owner }).2.owner }) := rfl

namespace Composed

theorem mono (composed : Composed rules may a) (more : ∀ x, may x → may' x) : Composed rules may' a := by
  induction composed with
  | pure x => exact .pure x
  | bind _ _ first second => exact .bind first second
  | look same _ each => exact .look same each
  | read reads => exact .read reads
  | report mild scope message => exact .report mild scope message
  | refuse refuses scope message => exact .refuse refuses scope message
  | fault scope cause => exact .fault scope cause
  | matrix allowed records => exact .matrix (more _ allowed) records
  | residual allowed records => exact .residual (more _ allowed) records
  | rows allowed row move => exact .rows (more _ allowed) row move

theorem map (composed : Composed rules may a) (g : ρ → υ) : Composed rules may (g <$> a) := by
  rw [map_eq_pure_bind]
  exact composed.bind fun _ => .pure _

theorem forM {body : ι → Pass σ α Unit} {items : List ι} (each : ∀ x, Composed rules may (body x)) :
    Composed rules may (items.forM body) := by
  induction items with
  | nil => exact .pure ()
  | cons x rest ih => exact (each x).bind fun _ => ih

theorem mapM {body : ι → Pass σ α υ} {items : List ι} (each : ∀ x, Composed rules may (body x)) :
    Composed rules may (items.mapM body) := by
  induction items with
  | nil =>
    rw [List.mapM_nil]
    exact .pure []
  | cons x rest ih =>
    rw [List.mapM_cons]
    exact (each x).bind fun _ => ih.bind fun _ => .pure _

/-- A report whose severity is chosen, and the complaint that follows where it is fatal. -/
theorem reportOr {severity : Severity} {e : AssemblyError} {rest : Pass σ α ρ}
    (refuses : severity = .fatal → rules.Refuses e) (goesOn : Composed rules may rest) (scope : Scope)
    (message : String) : Composed rules may (Pass.report severity scope message >>= fun _ =>
      if Severity.fatal ≤ severity then throw e else rest) := by
  by_cases fatal : severity = .fatal
  · rw [fatal, if_pos (by decide)]
    exact .refuse (refuses fatal) scope message
  · have mild : ¬Severity.fatal ≤ severity := by
      cases severity with
      | fatal => exact absurd rfl fatal
      | _ => decide
    simp only [if_neg mild]
    exact (Composed.report fatal scope message).bind fun _ => goesOn

end Composed

/-! ## Output -/

/-- What the step does, and what it appends, does not depend on the output before it. -/
structure Framed (a : Pass σ α ρ) : Prop where
  ran : ∀ (s : PassState σ α) (before : Records α), a { s with out := before.append s.out } =
    ((a s).1, { (a s).2 with out := before.append (a s).2.out })

namespace Framed

theorem bind (first : Framed a) (second : ∀ x, Framed (f x)) : Framed (a >>= f) := by
  refine ⟨fun s before => ?_⟩
  have prefixed := first.ran s before
  rcases ran : a s with ⟨e | x, s'⟩
  · rw [ran] at prefixed
    rw [bind_of_error ran, bind_of_error prefixed]
  · rw [ran] at prefixed
    rw [bind_of_ok ran, bind_of_ok prefixed]
    exact (second x).ran s' before

theorem onPart {part : σ → τ} {put : σ → τ → σ} {step : Pass τ α ρ} (framed : Framed step) :
    Framed (Pass.onPart part put step) := by
  refine ⟨fun s before => ?_⟩
  have ran := framed.ran { s with owner := part s.owner } before
  rw [onPart_eq, onPart_eq]
  dsimp only at ran ⊢
  rw [ran]

end Framed

theorem Composed.framed (reads : ∀ ρ a, rules.Reads ρ a → Framed a) (composed : Composed rules may a) :
    Framed a := by
  induction composed with
  | pure x => exact ⟨fun s before => rfl⟩
  | bind _ _ first second => exact first.bind second
  | look same _ each =>
    refine ⟨fun s before => ?_⟩
    rw [bind_get, bind_get, same s { s with out := before.append s.out } (rules.refl s.owner)]
    exact (each s).ran s before
  | read step => exact reads _ _ step
  | report | refuse | fault => exact ⟨fun s before => rfl⟩
  | matrix allowed records =>
    refine ⟨fun s before => Prod.ext rfl ?_⟩
    exact congrArg (fun out => { s with out }) (Records.append_addMatrix ..)
  | residual allowed records =>
    refine ⟨fun s before => Prod.ext rfl ?_⟩
    exact congrArg (fun out => { s with out }) (Records.append_addResidual ..)
  | rows allowed row move =>
    refine ⟨fun s before => ?_⟩
    rw [claimRow_eq, claimRow_eq]
    cases s.rows.claim row move <;> rfl

/-! ## Owners -/

/-- What every read of a model keeps true of the owner stays true. -/
theorem Composed.keeps {I : σ → Prop}
    (reads : ∀ ρ a, rules.Reads ρ a → ∀ s : PassState σ α, I s.owner → I (a s).2.owner)
    (composed : Composed rules may a) {s : PassState σ α} (holds : I s.owner) : I (a s).2.owner := by
  induction composed generalizing s with
  | bind _ _ first second =>
    rename_i a f _ _
    have kept := first holds
    rcases ran : a s with ⟨e | x, s'⟩
    · rw [ran] at kept
      rwa [bind_of_error ran]
    · rw [ran] at kept
      rw [bind_of_ok ran]
      exact second x kept
  | look _ _ each => exact each s holds
  | read step => exact reads _ _ step s holds
  | rows allowed row move =>
    rw [claimRow_eq]
    cases s.rows.claim row move <;> exact holds
  | pure | report | refuse | fault | matrix | residual => exact holds

def image (φ : σ → σ) (s : PassState σ α) : PassState σ α := { s with owner := φ s.owner }

/-- The step does to the image of an owner with the property what it does to the owner, and keeps the
property. -/
abbrev Mirrors (φ : σ → σ) (I : σ → Prop) (a : Pass σ α ρ) : Prop :=
  Respects (image φ) (fun s => I s.owner) a

theorem Mirrors.bind {φ : σ → σ} {I : σ → Prop} (first : Mirrors φ I a)
    (second : ∀ x, Mirrors φ I (f x)) : Mirrors φ I (a >>= f) := by
  intro s holds
  obtain ⟨same, kept⟩ := first s holds
  rcases ran : a s with ⟨e | x, s'⟩
  · rw [ran] at same kept
    rw [bind_of_error ran, bind_of_error same]
    exact ⟨rfl, kept⟩
  · rw [ran] at same kept
    rw [bind_of_ok ran, bind_of_ok same]
    exact second x s' kept

theorem Mirrors.onPart {part : σ → τ} {put : σ → τ → σ} {step : Pass τ α ρ} {φ : σ → σ} {ψ : τ → τ}
    {I : σ → Prop} {J : τ → Prop} (mirrors : Mirrors ψ J step) (part_image : ∀ o, part (φ o) = ψ (part o))
    (put_image : ∀ o t, put (φ o) (ψ t) = φ (put o t)) (inside : ∀ o, I o → J (part o))
    (outside : ∀ o t, I o → J t → I (put o t)) : Mirrors φ I (Pass.onPart part put step) := by
  intro s holds
  obtain ⟨same, kept⟩ := mirrors { s with owner := part s.owner } (inside s.owner holds)
  rw [onPart_eq, onPart_eq]
  dsimp only [image] at same ⊢
  rw [part_image, same, put_image]
  exact ⟨rfl, outside _ _ holds kept⟩

/-- Where owners and their images have the same declarations and reads do the same to both, so does every
step. -/
theorem Composed.mirrors {φ : σ → σ} {I : σ → Prop} (alike : ∀ o, rules.Alike o (φ o))
    (reads : ∀ ρ a, rules.Reads ρ a → Mirrors φ I a) (composed : Composed rules may a) :
    Mirrors φ I a := by
  induction composed with
  | bind _ _ first second => exact Mirrors.bind first second
  | look same _ each =>
    intro s holds
    rw [bind_get, bind_get, same s (image φ s) (alike s.owner)]
    exact each s s holds
  | read step => exact reads _ _ step
  | rows allowed row move =>
    intro s holds
    rw [claimRow_eq, claimRow_eq]
    dsimp only [image]
    cases s.rows.claim row move <;> exact ⟨rfl, holds⟩
  | pure | report | refuse | fault | matrix | residual => exact fun s holds => ⟨rfl, holds⟩

/-! ## Failures -/

def Rules.Fails (rules : Rules σ α) (may : Effect → Prop) : AssemblyError → Prop
  | .model .. => True
  | .rowConflict _ => may .rows
  | e => rules.Refuses e

theorem Composed.failed
    (reads : ∀ ρ a, rules.Reads ρ a → ∀ (s : PassState σ α) e, (a s).1 = .error e → rules.Fails may e)
    (composed : Composed rules may a) {s : PassState σ α} {e : AssemblyError}
    (failed : (a s).1 = .error e) : rules.Fails may e := by
  have complains : ∀ {e}, rules.Refuses e → rules.Fails may e := by
    intro e refuses
    have complaint := rules.complaint e refuses
    cases e <;> first | exact refuses | exact complaint.elim
  induction composed generalizing s with
  | bind _ _ first second =>
    rename_i a f _ _
    rcases ran : a s with ⟨e' | x, s'⟩
    · rw [bind_of_error ran] at failed
      cases failed
      exact first (congrArg Prod.fst ran)
    · rw [bind_of_ok ran] at failed
      exact second x failed
  | look _ _ each => exact each s failed
  | read step => exact reads _ _ step s e failed
  | refuse refuses =>
    cases failed
    exact complains refuses
  | fault =>
    cases failed
    trivial
  | rows allowed row move =>
    rw [claimRow_eq] at failed
    split at failed
    · cases failed
    · cases failed
      exact allowed
  | pure | report | matrix | residual => cases failed

/-! ## The log -/

/-- The step adds records to the log, a fatal one exactly if it ends with a complaint. -/
structure Candid (a : Pass σ α ρ) : Prop where
  ran : ∀ s, Log.Tells AssemblyError.IsComplaint s.log (a s).2.log (a s).1

namespace Candid

theorem bind (first : Candid a) (second : ∀ x, Candid (f x)) : Candid (a >>= f) := by
  refine ⟨fun s => ?_⟩
  have tells := first.ran s
  rcases ran : a s with ⟨e | x, s'⟩
  · rw [ran] at tells
    rw [bind_of_error ran]
    exact tells.of_error Iff.rfl
  · rw [ran] at tells
    rw [bind_of_ok ran]
    exact tells.trans ((second x).ran s')

theorem onPart {part : σ → τ} {put : σ → τ → σ} {step : Pass τ α ρ} (candid : Candid step) :
    Candid (Pass.onPart part put step) :=
  ⟨fun s => candid.ran { s with owner := part s.owner }⟩

end Candid

theorem Composed.candid (reads : ∀ ρ a, rules.Reads ρ a → Candid a) (composed : Composed rules may a) :
    Candid a := by
  induction composed with
  | bind _ _ first second => exact first.bind second
  | look _ _ each => exact ⟨fun s => (each s).ran s⟩
  | read step => exact reads _ _ step
  | report mild scope message => exact ⟨fun s => .mild mild scope message ()⟩
  | refuse refuses scope message => exact ⟨fun s => .fatal (rules.complaint _ refuses) scope message⟩
  | fault scope cause => exact ⟨fun s => .error id⟩
  | pure | matrix | residual => exact ⟨fun s => .ok _⟩
  | rows allowed row move =>
    refine ⟨fun s => ?_⟩
    rw [claimRow_eq]
    cases s.rows.claim row move with
    | ok rows => exact .ok ()
    | error conflict => exact .error id

end Pass

end FiniteVolume
