import FiniteVolume.Proofs.Assembly.Pass
import FiniteVolume.Proofs.Assembly.Selection

/-!
Steps that repeat, commute and split.

Where reads give the same in all owners of a kind, so do the steps that consist of them
(`Composed.gives`): in whatever order steps run, each ends and appends as if it were the first. A pass for
matrix and residual then does what the passes for either do (`Splits.repeats`).
-/
namespace FiniteVolume.Pass

variable {σ α ρ υ ι : Type}

/-! ## Steps that repeat -/

/-- How a step ends, with the records that it appends. -/
abbrev Ending (α ρ : Type) := Except AssemblyError ρ × Records α

/-- From every owner of a kind the step ends in the same way and appends the same records. It claims no
rows, and leaves an owner of the kind. -/
structure Gives (kind : σ → Prop) (a : Pass σ α ρ) (ending : Ending α ρ) : Prop where
  ran : ∀ s : PassState σ α, kind s.owner → (a s).1 = ending.1 ∧
    (a s).2.out = s.out.append ending.2 ∧ (a s).2.rows = s.rows ∧ kind (a s).2.owner

variable {kind : σ → Prop} {a : Pass σ α ρ} {f : ρ → Pass σ α υ}

namespace Gives

theorem pure (x : ρ) : Gives kind (Pure.pure x : Pass σ α ρ) (.ok x, {}) :=
  ⟨fun _ holds => ⟨rfl, (Records.append_empty _).symm, rfl, holds⟩⟩

theorem throw (e : AssemblyError) : Gives kind (MonadExcept.throw e : Pass σ α ρ) (.error e, {}) :=
  ⟨fun _ holds => ⟨rfl, (Records.append_empty _).symm, rfl, holds⟩⟩

theorem report (severity : Severity) (scope : Scope) (message : String) :
    Gives kind (Pass.report severity scope message : Pass σ α Unit) (.ok (), {}) :=
  ⟨fun _ holds => ⟨rfl, (Records.append_empty _).symm, rfl, holds⟩⟩

theorem addMatrix (records : List (MatrixRecord α)) :
    Gives kind (Pass.addMatrix records : Pass σ α Unit) (.ok (), ⟨records, []⟩) :=
  ⟨fun _ holds => ⟨rfl, Records.addMatrix_eq _ _, rfl, holds⟩⟩

theorem addResidual (records : List (ResidualRecord α)) :
    Gives kind (Pass.addResidual records : Pass σ α Unit) (.ok (), ⟨[], records⟩) :=
  ⟨fun _ holds => ⟨rfl, Records.addResidual_eq _ _, rfl, holds⟩⟩

theorem bind_ok {x : ρ} {added : Records α} {ending : Ending α υ} (first : Gives kind a (.ok x, added))
    (second : Gives kind (f x) ending) : Gives kind (a >>= f) (ending.1, added.append ending.2) := by
  refine ⟨fun s holds => ?_⟩
  obtain ⟨result, out, rows, kept⟩ := first.ran s holds
  obtain ⟨result', out', rows', kept'⟩ := second.ran (a s).2 kept
  rw [bind_of_ok (Prod.ext result rfl)]
  exact ⟨result', by rw [out', out, Records.append_assoc], rows'.trans rows, kept'⟩

theorem bind_error {e : AssemblyError} {added : Records α} (first : Gives kind a (.error e, added)) :
    Gives kind (a >>= f) (.error e, added) := by
  refine ⟨fun s holds => ?_⟩
  obtain ⟨result, left⟩ := first.ran s holds
  rw [bind_of_error (Prod.ext result rfl)]
  exact ⟨rfl, left⟩

theorem look {g : PassState σ α → Pass σ α ρ} {ending : Ending α ρ} {s₀ : PassState σ α}
    (same : ∀ s : PassState σ α, kind s.owner → g s = g s₀) (gives : Gives kind (g s₀) ending) :
    Gives kind (MonadState.get >>= g) ending := by
  refine ⟨fun s holds => ?_⟩
  rw [bind_get, same s holds]
  exact gives.ran s holds

end Gives

section

variable {rules : Rules σ α} {may : Effect → Prop} (alike : ∀ o o', kind o → kind o' → rules.Alike o o')
  (reads : ∀ ρ a, rules.Reads ρ a → ∃ result, Gives kind a (result, {})) {o : σ} (holds : kind o)

include alike reads holds

/-- Where reads give the same, so does every step, which appends what it is entitled to. -/
theorem Composed.gives (claimless : ¬may .rows) (composed : Composed rules may a) :
    ∃ ending, Gives kind a ending ∧ (¬may .matrix → ending.2.matrix = []) ∧
      (¬may .residual → ending.2.residual = []) := by
  induction composed with
  | pure x => exact ⟨_, .pure x, fun _ => rfl, fun _ => rfl⟩
  | bind _ _ first second =>
    obtain ⟨⟨e | x, added⟩, gives, matrix, residual⟩ := first
    · exact ⟨_, gives.bind_error, matrix, residual⟩
    · obtain ⟨ending, gives', matrix', residual'⟩ := second x
      refine ⟨_, gives.bind_ok gives', fun no => ?_, fun no => ?_⟩
      · exact List.append_eq_nil_iff.mpr ⟨matrix no, matrix' no⟩
      · exact List.append_eq_nil_iff.mpr ⟨residual no, residual' no⟩
  | look same _ each =>
    obtain ⟨ending, gives, kinds⟩ := each { owner := o }
    exact ⟨ending, .look (fun s here => same _ s (alike _ _ holds here)) gives, kinds⟩
  | read step =>
    obtain ⟨result, gives⟩ := reads _ _ step
    exact ⟨_, gives, fun _ => rfl, fun _ => rfl⟩
  | report mild scope message => exact ⟨_, .report _ scope message, fun _ => rfl, fun _ => rfl⟩
  | refuse refuses scope message =>
    exact ⟨_, (Gives.report _ scope message).bind_ok (.throw _), fun _ => rfl, fun _ => rfl⟩
  | fault scope cause => exact ⟨_, .throw _, fun _ => rfl, fun _ => rfl⟩
  | matrix allowed records => exact ⟨_, .addMatrix records, fun no => absurd allowed no, fun _ => rfl⟩
  | residual allowed records => exact ⟨_, .addResidual records, fun _ => rfl, fun no => absurd allowed no⟩
  | rows allowed => exact absurd allowed claimless

end

/-! ## Families that split -/

/-- One ending after the other, where the first is no failure. -/
def Ending.followedBy (first second : Ending α Unit) : Ending α Unit :=
  match first.1 with
  | .ok () => (second.1, first.2.append second.2)
  | .error e => (.error e, first.2)

theorem Gives.seq {a b : Pass σ α Unit} {first second : Ending α Unit} (gives : Gives kind a first)
    (gives' : Gives kind b second) : Gives kind (a >>= fun _ => b) (first.followedBy second) := by
  obtain ⟨e | x, added⟩ := first
  · exact gives.bind_error
  · exact gives.bind_ok gives'

/-- For both kinds of numbers it ends well exactly if it does so for each, and then it appends the matrix
of the one and the residual of the other. -/
structure Divides (ending : Selector → Ending α Unit) : Prop where
  ok : (ending .both).1 = .ok () ↔ (ending .matrix).1 = .ok () ∧ (ending .residual).1 = .ok ()
  records : (ending .both).1 = .ok () →
    (ending .both).2 = ⟨(ending .matrix).2.matrix, (ending .residual).2.residual⟩

theorem Divides.seq {first second : Selector → Ending α Unit} (divides : Divides first)
    (divides' : Divides second) : Divides fun select => (first select).followedBy (second select) := by
  have ended : ∀ x y : Ending α Unit, (x.followedBy y).1 = .ok () ↔ x.1 = .ok () ∧ y.1 = .ok () := by
    rintro ⟨e | ⟨⟩, added⟩ y <;> simp [Ending.followedBy]
  have added : ∀ x y : Ending α Unit, x.1 = .ok () → (x.followedBy y).2 = x.2.append y.2 := by
    rintro ⟨e | ⟨⟩, added⟩ y ok
    · cases ok
    · rfl
  refine ⟨?_, fun ok => ?_⟩
  · simp only [ended, divides.ok, divides'.ok]
    tauto
  · obtain ⟨ok, ok'⟩ := (ended _ _).mp ok
    obtain ⟨matrix, residual⟩ := divides.ok.mp ok
    simp only [added _ _ ok, added _ _ matrix, added _ _ residual, divides.records ok, divides'.records ok']
    rfl

/-- The records land where their rows were moved, and a step that fails leaves none. -/
def Ending.moved (ending : Ending α Unit) (rows : RowMap) : Ending α Unit :=
  match ending.1 with
  | .ok () => (.ok (), ending.2.permute rows)
  | .error e => (.error e, {})

theorem Divides.moved {ending : Selector → Ending α Unit} (divides : Divides ending) (rows : RowMap) :
    Divides fun select => (ending select).moved rows := by
  have ended : ∀ x : Ending α Unit, (x.moved rows).1 = x.1 := by
    rintro ⟨e | ⟨⟩, added⟩ <;> rfl
  have added : ∀ x : Ending α Unit, x.1 = .ok () → (x.moved rows).2 = x.2.permute rows := by
    rintro ⟨e | ⟨⟩, added⟩ ok
    · cases ok
    · rfl
  refine ⟨by simpa only [ended] using divides.ok, fun ok => ?_⟩
  rw [ended] at ok
  obtain ⟨matrix, residual⟩ := divides.ok.mp ok
  simp only [added _ ok, added _ matrix, added _ residual, divides.records ok]
  rfl

/-- In passes for numbers the steps repeat, and together they divide. -/
def Repeats (kind : σ → Prop) (f : Selector → Pass σ α Unit) : Prop :=
  ∃ ending : Selector → Ending α Unit,
    (∀ select, select ≠ .rows → Gives kind (f select) (ending select)) ∧ Divides ending

namespace Repeats

variable {f g : Selector → Pass σ α Unit}

/-- The same for all passes, without records. -/
theorem quiet {result : Except AssemblyError Unit} (gives : ∀ select, Gives kind (f select) (result, {})) :
    Repeats kind f :=
  ⟨fun _ => (result, {}), fun select _ => gives select, and_self_iff.symm, fun _ => rfl⟩

theorem skip : Repeats kind fun _ => (pure () : Pass σ α Unit) := quiet fun _ => .pure ()

theorem seq (first : Repeats kind f) (second : Repeats kind g) :
    Repeats kind fun select => f select >>= fun _ => g select := by
  obtain ⟨ending, gives, divides⟩ := first
  obtain ⟨ending', gives', divides'⟩ := second
  exact ⟨_, fun select numeric => (gives select numeric).seq (gives' select numeric), divides.seq divides'⟩

theorem forM {body : ι → Selector → Pass σ α Unit} {items : List ι}
    (each : ∀ x ∈ items, Repeats kind (body x)) :
    Repeats kind fun select => items.forM fun x => body x select := by
  induction items with
  | nil => exact .skip
  | cons x rest ih => exact (each x (by simp)).seq (ih fun y member => each y (by simp [member]))

end Repeats

variable {rules : Rules σ α} {f : Selector → Pass σ α Unit}

theorem Splits.repeats (alike : ∀ o o', kind o → kind o' → rules.Alike o o')
    (reads : ∀ ρ a, rules.Reads ρ a → ∃ result, Gives kind a (result, {})) {o : σ} (holds : kind o)
    (splits : Splits rules f) : Repeats kind f := by
  induction splits with
  | skip => exact .skip
  | look same _ each =>
    obtain ⟨ending, gives, divides⟩ := each { owner := o }
    refine ⟨ending, fun select numeric => .look (fun s here => ?_) (gives select numeric), divides⟩
    exact congrFun (same _ s (alike _ _ holds here)) select
  | read first _ second =>
    -- The read gives one result whichever owner of the kind it starts from, and so one continuation.
    obtain ⟨⟨result, added⟩, gives, matrix, residual⟩ := first.gives alike reads holds id
    obtain rfl : added = {} := congrArg₂ Records.mk (matrix id) (residual id)
    cases result with
    | error e => exact .quiet fun _ => gives.bind_error
    | ok x =>
      obtain ⟨ending, gives', divides⟩ := second x
      refine ⟨ending, fun select numeric => ?_, divides⟩
      simpa using gives.bind_ok (gives' select numeric)
  | seq _ _ first second => exact first.seq second
  | matrix composed =>
    obtain ⟨ending, gives, -, residual⟩ := composed.gives alike reads holds (by simp)
    -- A pass that does not want the matrix leaves the step out.
    refine ⟨fun select => if select.wantsMatrix then ending else (.ok (), {}), fun select _ => ?_, ?_, ?_⟩
    · dsimp only
      split
      · exact gives
      · exact .pure ()
    · simp [Selector.wantsMatrix]
    · exact fun _ => congrArg (Records.mk ending.2.matrix) (residual (by simp))
  | residual composed =>
    obtain ⟨ending, gives, matrix, -⟩ := composed.gives alike reads holds (by simp)
    refine ⟨fun select => if select.wantsResidual then ending else (.ok (), {}), fun select _ => ?_, ?_, ?_⟩
    · dsimp only
      split
      · exact gives
      · exact .pure ()
    · simp [Selector.wantsResidual]
    · exact fun _ => congrArg (Records.mk · ending.2.residual) (matrix (by simp))
  | numeric _ same repeats =>
    obtain ⟨ending, gives, divides⟩ := repeats
    refine ⟨ending, fun select numeric => ?_, divides⟩
    rw [same select numeric]
    exact gives select numeric

end FiniteVolume.Pass
