import FiniteVolume.Assembly.Pass
import Mathlib.Data.List.Forall2

/-!
What the steps of a pass leave behind.

A numeric step claims no rows, and from its owner it goes on to a later one, whatever its outcome. If
it succeeds it has appended records. `Pass.Writes` says all of this, and what holds of the result and
the records in view of every later owner; `Pass.Succeeds` says that a step succeeds under an invariant
of the owner.
-/
namespace FiniteVolume

namespace Records

variable {α : Type}

@[simp] theorem append_empty (r : Records α) : r.append {} = r := by simp [append]

@[simp] theorem empty_append (r : Records α) : append {} r = r := by simp [append]

theorem append_assoc (r s t : Records α) : (r.append s).append t = r.append (s.append t) := by
  simp [append]

theorem addResidual_eq (r : Records α) (records : List (ResidualRecord α)) :
    r.addResidual records = r.append ⟨[], records⟩ := by simp [addResidual, append]

theorem addMatrix_eq (r : Records α) (records : List (MatrixRecord α)) :
    r.addMatrix records = r.append ⟨records, []⟩ := by simp [addMatrix, append]

theorem append_left_cancel {r s s' : Records α} (same : r.append s = r.append s') : s = s' := by
  obtain ⟨matrix, residual⟩ := Records.mk.inj same
  exact congrArg₂ Records.mk (List.append_cancel_left matrix) (List.append_cancel_left residual)

def join (parts : List (Records α)) : Records α :=
  ⟨parts.flatMap (·.matrix), parts.flatMap (·.residual)⟩

@[simp] theorem join_nil : join ([] : List (Records α)) = {} := rfl

@[simp] theorem join_cons (r : Records α) (rest : List (Records α)) :
    join (r :: rest) = r.append (join rest) := rfl

theorem join_append (parts rest : List (Records α)) :
    join (parts ++ rest) = (join parts).append (join rest) := by simp [join, append]

end Records

/-- Owners of models with what comes later: the same declarations, and values that were at hand still
are. -/
class Owner (σ : Type) where
  Later : σ → σ → Prop
  refl (o : σ) : Later o o
  trans {o o' o'' : σ} : Later o o' → Later o' o'' → Later o o''

namespace Pass

variable {σ τ α ρ υ : Type} {a : Pass σ α ρ} {f : ρ → Pass σ α υ} {s s' : PassState σ α}

/-! ## Running steps -/

theorem bind_of_ok {x : ρ} (ran : a s = (.ok x, s')) : (a >>= f) s = f x s' := by
  change (ExceptT.bindCont f (a s).1 : StateM (PassState σ α) _) (a s).2 = _
  rw [ran]
  rfl

theorem bind_of_error {e : AssemblyError} (ran : a s = (.error e, s')) :
    (a >>= f) s = (.error e, s') := by
  change (ExceptT.bindCont f (a s).1 : StateM (PassState σ α) _) (a s).2 = _
  rw [ran]
  rfl

theorem bind_get {g : PassState σ α → Pass σ α υ} : ((get : Pass σ α _) >>= g) s = g s s := rfl

theorem bind_eq_ok {y : υ} {s'' : PassState σ α} (ran : (a >>= f) s = (.ok y, s'')) :
    ∃ x s', a s = (.ok x, s') ∧ f x s' = (.ok y, s'') := by
  rcases first : a s with ⟨e | x, s'⟩
  · rw [bind_of_error first] at ran
    cases ran
  · rw [bind_of_ok first] at ran
    exact ⟨x, s', rfl, ran⟩

theorem exists_ok_of_isSome (succeeds : (a s).1.toOption.isSome) :
    ∃ x, a s = (.ok x, (a s).2) := by
  cases ran : (a s).1 with
  | ok x => exact ⟨x, Prod.ext ran rfl⟩
  | error fault =>
    rw [ran] at succeeds
    cases succeeds

theorem forM_cons {ι : Type} {x : ι} {rest : List ι} {body : ι → Pass σ α Unit} :
    (x :: rest).forM body = body x >>= fun _ => rest.forM body := rfl

/-! ## Records that a step appends -/

section

variable [Owner σ]

/-- The step claims no rows and leaves a later owner. If it succeeds, `post` holds of its result and
of the records that it appends, in view of every owner from then on. -/
structure Writes (step : Pass σ α ρ) (post : ρ → σ → Records α → Prop) : Prop where
  ran : ∀ s, (step s).2.rows = s.rows ∧ Owner.Later s.owner (step s).2.owner ∧
    ∀ x, (step s).1 = .ok x → ∃ records, (step s).2.out = s.out.append records ∧
      ∀ o, Owner.Later (step s).2.owner o → post x o records

namespace Writes

variable {post : ρ → σ → Records α → Prop} {post' : υ → σ → Records α → Prop}

theorem mono {weaker : ρ → σ → Records α → Prop} (writes : Writes a post)
    (implies : ∀ x o records, post x o records → weaker x o records) : Writes a weaker := by
  refine ⟨fun s => ?_⟩
  obtain ⟨rows, later, succeeded⟩ := writes.ran s
  refine ⟨rows, later, fun x ran => ?_⟩
  obtain ⟨records, out, holds⟩ := succeeded x ran
  exact ⟨records, out, fun o after => implies x o records (holds o after)⟩

/-- What is known of the records in two ways holds of them together. -/
theorem and {other : ρ → σ → Records α → Prop} (first : Writes a post) (second : Writes a other) :
    Writes a fun x o records => post x o records ∧ other x o records := by
  refine ⟨fun s => ?_⟩
  obtain ⟨rows, later, succeeded⟩ := first.ran s
  obtain ⟨-, -, succeeded'⟩ := second.ran s
  refine ⟨rows, later, fun x ran => ?_⟩
  obtain ⟨records, out, holds⟩ := succeeded x ran
  obtain ⟨records', out', holds'⟩ := succeeded' x ran
  obtain rfl := Records.append_left_cancel (out.symm.trans out')
  exact ⟨records, out, fun o after => ⟨holds o after, holds' o after⟩⟩

theorem appended {x : ρ} (writes : Writes a post) (ran : a s = (.ok x, s')) :
    Owner.Later s.owner s'.owner ∧ ∃ records, s'.out = s.out.append records ∧
      post x s'.owner records := by
  obtain ⟨-, later, succeeded⟩ := writes.ran s
  rw [ran] at later succeeded
  obtain ⟨records, out, holds⟩ := succeeded x rfl
  exact ⟨later, records, out, holds s'.owner (Owner.refl _)⟩

theorem pure (x : ρ) :
    Writes (Pure.pure x : Pass σ α ρ) fun y _ records => y = x ∧ records = {} := by
  refine ⟨fun s => ?_⟩
  refine ⟨rfl, Owner.refl _, fun y ran => ⟨{}, (Records.append_empty _).symm, fun _ _ => ?_⟩⟩
  exact ⟨(Except.ok.inj ran).symm, rfl⟩

theorem skip : Writes (Pure.pure () : Pass σ α Unit) fun _ _ records => records = {} :=
  (pure ()).mono fun _ _ _ => And.right

theorem throw (e : AssemblyError) :
    Writes (MonadExcept.throw e : Pass σ α ρ) fun _ _ _ => False :=
  ⟨fun _ => ⟨rfl, Owner.refl _, fun _ ran => nomatch ran⟩⟩

theorem get : Writes (MonadState.get : Pass σ α (PassState σ α))
    fun s o records => Owner.Later s.owner o ∧ records = {} := by
  refine ⟨fun s => ?_⟩
  refine ⟨rfl, Owner.refl _, fun x ran => ⟨{}, (Records.append_empty _).symm, fun o after => ?_⟩⟩
  obtain rfl : s = x := Except.ok.inj ran
  exact ⟨after, rfl⟩

theorem report (severity : Severity) (scope : Scope) (message : String) :
    Writes (Pass.report severity scope message : Pass σ α Unit) fun _ _ records => records = {} :=
  ⟨fun _ => ⟨rfl, Owner.refl _, fun _ _ => ⟨{}, (Records.append_empty _).symm, fun _ _ => rfl⟩⟩⟩

theorem addResidual (records : List (ResidualRecord α)) :
    Writes (Pass.addResidual records : Pass σ α Unit) fun _ _ added => added = ⟨[], records⟩ :=
  ⟨fun _ => ⟨rfl, Owner.refl _, fun _ _ => ⟨_, Records.addResidual_eq _ _, fun _ _ => rfl⟩⟩⟩

theorem addMatrix (records : List (MatrixRecord α)) :
    Writes (Pass.addMatrix records : Pass σ α Unit) fun _ _ added => added = ⟨records, []⟩ :=
  ⟨fun _ => ⟨rfl, Owner.refl _, fun _ _ => ⟨_, Records.addMatrix_eq _ _, fun _ _ => rfl⟩⟩⟩

/-- Two steps in a row append the records of both. -/
theorem bind {p : ρ → σ → Records α → Prop} {q : ρ → υ → σ → Records α → Prop}
    (first : Writes a p) (second : ∀ x, Writes (f x) (q x))
    (combine : ∀ x y o records records', p x o records → q x y o records' →
      post' y o (records.append records')) : Writes (a >>= f) post' := by
  refine ⟨fun s => ?_⟩
  obtain ⟨rows, later, succeeded⟩ := first.ran s
  rcases ran : a s with ⟨e | x, s'⟩
  · rw [bind_of_error ran]
    rw [ran] at rows later
    exact ⟨rows, later, fun _ failed => nomatch failed⟩
  · rw [bind_of_ok ran]
    rw [ran] at rows later succeeded
    obtain ⟨rows', later', succeeded'⟩ := (second x).ran s'
    refine ⟨rows'.trans rows, Owner.trans later later', fun y ran' => ?_⟩
    obtain ⟨records, out, holds⟩ := succeeded x rfl
    obtain ⟨records', out', holds'⟩ := succeeded' y ran'
    refine ⟨records.append records', ?_, fun o after => ?_⟩
    · rw [out', out, Records.append_assoc]
    · exact combine x y o records records' (holds o (Owner.trans later' after)) (holds' o after)

theorem bind_lookup {p : ρ → σ → Prop} {q : ρ → υ → σ → Records α → Prop}
    (first : Writes a fun x o records => records = {} ∧ p x o)
    (second : ∀ x, Writes (f x) (q x))
    (combine : ∀ x y o records, p x o → q x y o records → post' y o records) :
    Writes (a >>= f) post' :=
  first.bind second fun x y o _ records ⟨nothing, here⟩ holds => by
    rw [nothing, Records.empty_append]
    exact combine x y o records here holds

theorem bind_nothing (first : Writes a fun _ _ records => records = {})
    (second : ∀ x, Writes (f x) post') : Writes (a >>= f) post' :=
  (first.mono fun _ _ _ nothing => ⟨nothing, trivial⟩).bind_lookup (p := fun _ _ => True) second
    fun _ _ _ _ _ holds => holds

theorem bind_get {g : PassState σ α → Pass σ α υ} {q : PassState σ α → υ → σ → Records α → Prop}
    (writes : ∀ s, Writes (g s) (q s))
    (combine : ∀ s y o records, Owner.Later s.owner o → q s y o records → post' y o records) :
    Writes (MonadState.get >>= g) post' :=
  (get.mono fun _ _ _ => And.symm).bind_lookup writes combine

theorem bind_pure {g : ρ → υ} (writes : Writes a post)
    (combine : ∀ x o records, post x o records → post' (g x) o records) :
    Writes (a >>= fun x => Pure.pure (g x)) post' := by
  refine writes.bind (fun x => pure (g x)) fun x y o records _ holds ⟨same, nothing⟩ => ?_
  rw [nothing, Records.append_empty, same]
  exact combine x o records holds

theorem append {b : Pass σ α υ} {records records' : σ → Records α}
    (first : Writes a fun _ o added => added = records o)
    (second : Writes b fun _ o added => added = records' o) :
    Writes (a >>= fun _ => b) fun _ o added => added = (records o).append (records' o) := by
  refine first.bind (fun _ => second) ?_
  rintro _ _ o _ _ rfl rfl
  rfl

/-- Steps for the elements of a list append their records in order. -/
theorem forM {ι : Type} {body : ι → Pass σ α Unit} {records : σ → ι → Records α} {items : List ι}
    (writes : ∀ x ∈ items, Writes (body x) fun _ o added => added = records o x) :
    Writes (items.forM body) fun _ o added => added = Records.join (items.map (records o)) := by
  induction items with
  | nil => exact (pure ()).mono fun _ _ _ same => same.2
  | cons x rest ih =>
    rw [forM_cons]
    refine (writes x (by simp)).bind (fun _ => ih fun y member => writes y (by simp [member])) ?_
    rintro _ _ o _ _ rfl rfl
    rfl

theorem forM_matrix {ι : Type} {body : ι → Pass σ α Unit} {g : σ → ι → List (MatrixRecord α)}
    {items : List ι}
    (writes : ∀ x ∈ items, Writes (body x) fun _ o added => added = ⟨g o x, []⟩) :
    Writes (items.forM body) fun _ o added => added = ⟨items.flatMap (g o), []⟩ := by
  refine (forM writes).mono fun _ o added all => ?_
  rw [all]
  simp [Records.join, List.flatMap_map]

theorem forM_nothing {ι : Type} {body : ι → Pass σ α Unit} {items : List ι}
    (writes : ∀ x ∈ items, Writes (body x) fun _ _ added => added = {}) :
    Writes (items.forM body) fun _ _ added => added = {} :=
  (forM_matrix (g := fun _ _ => []) writes).mono fun _ _ _ all => by simp [all]

/-- Steps that only look something up for the elements of a list. -/
theorem mapM {ι : Type} {body : ι → Pass σ α υ} {R : σ → ι → υ → Prop} {items : List ι}
    (writes : ∀ x ∈ items, Writes (body x) fun y o added => added = {} ∧ R o x y) :
    Writes (items.mapM body)
      fun ys o added => added = {} ∧ List.Forall₂ (R o) items ys := by
  induction items with
  | nil =>
    rw [List.mapM_nil]
    exact (pure []).mono fun _ _ _ ⟨result, nothing⟩ => ⟨nothing, result ▸ .nil⟩
  | cons x rest ih =>
    rw [List.mapM_cons]
    refine (writes x (by simp)).bind (q := fun y ys o added =>
      added = {} ∧ ∃ tail, ys = y :: tail ∧ List.Forall₂ (R o) rest tail) ?_ ?_
    · intro y
      refine (ih fun y member => writes y (by simp [member])).bind_pure ?_
      exact fun tail _ _ ⟨nothing, all⟩ => ⟨nothing, tail, rfl, all⟩
    · rintro y _ o _ _ ⟨rfl, here⟩ ⟨rfl, tail, rfl, all⟩
      exact ⟨rfl, .cons here all⟩

theorem onPart [Owner τ] {part : σ → τ} {update : σ → τ → σ} {step : Pass τ α ρ}
    {inner : ρ → τ → Records α → Prop} (writes : Writes step inner)
    (get_put : ∀ o t, part (update o t) = t)
    (put : ∀ {o t}, Owner.Later (part o) t → Owner.Later o (update o t))
    (get : ∀ {o o'}, Owner.Later o o' → Owner.Later (part o) (part o')) :
    Writes (Pass.onPart part update step) fun x o records => inner x (part o) records := by
  refine ⟨fun s => ?_⟩
  obtain ⟨rows, later, succeeded⟩ := writes.ran { s with owner := part s.owner }
  refine ⟨rows, put later, fun x ran => ?_⟩
  obtain ⟨records, out, holds⟩ := succeeded x ran
  refine ⟨records, out, fun o after => holds _ ?_⟩
  have onPart := get after
  rwa [show part (Pass.onPart part update step s).2.owner = _ from get_put _ _] at onPart

end Writes

end

/-! ## Steps that succeed -/

/-- Under an invariant of the owner, which it keeps, the step succeeds. -/
structure Succeeds (invariant : σ → Prop) (step : Pass σ α ρ) (post : ρ → Prop) : Prop where
  ran : ∀ s, invariant s.owner →
    ∃ x s', step s = (.ok x, s') ∧ invariant s'.owner ∧ post x

namespace Succeeds

variable {invariant : σ → Prop} {p : ρ → Prop} {q : υ → Prop}

theorem pure {x : ρ} (holds : p x) : Succeeds invariant (Pure.pure x : Pass σ α ρ) p :=
  ⟨fun s kept => ⟨x, s, rfl, kept, holds⟩⟩

theorem get : Succeeds invariant (MonadState.get : Pass σ α (PassState σ α))
    fun s => invariant s.owner :=
  ⟨fun s kept => ⟨s, s, rfl, kept, kept⟩⟩

theorem report (severity : Severity) (scope : Scope) (message : String) :
    Succeeds invariant (Pass.report severity scope message : Pass σ α Unit) fun _ => True :=
  ⟨fun _ kept => ⟨(), _, rfl, kept, trivial⟩⟩

theorem addResidual (records : List (ResidualRecord α)) :
    Succeeds invariant (Pass.addResidual records : Pass σ α Unit) fun _ => True :=
  ⟨fun _ kept => ⟨(), _, rfl, kept, trivial⟩⟩

theorem addMatrix (records : List (MatrixRecord α)) :
    Succeeds invariant (Pass.addMatrix records : Pass σ α Unit) fun _ => True :=
  ⟨fun _ kept => ⟨(), _, rfl, kept, trivial⟩⟩

theorem bind (first : Succeeds invariant a p)
    (second : ∀ x, p x → Succeeds invariant (f x) q) :
    Succeeds invariant (a >>= f) q := by
  refine ⟨fun s kept => ?_⟩
  obtain ⟨x, s', ran, kept', holds⟩ := first.ran s kept
  obtain ⟨y, s'', ran', kept'', holds'⟩ := (second x holds).ran s' kept'
  exact ⟨y, s'', (bind_of_ok ran).trans ran', kept'', holds'⟩

theorem forM {ι : Type} {body : ι → Pass σ α Unit} {items : List ι}
    (each : ∀ x ∈ items, Succeeds invariant (body x) fun _ => True) :
    Succeeds invariant (items.forM body) fun _ => True := by
  induction items with
  | nil => exact .pure trivial
  | cons x rest ih =>
    rw [forM_cons]
    exact (each x (by simp)).bind fun _ _ => ih fun y member => each y (by simp [member])

theorem mapM {ι : Type} {body : ι → Pass σ α υ} {items : List ι}
    (each : ∀ x ∈ items, Succeeds invariant (body x) q) :
    Succeeds invariant (items.mapM body) fun ys => ∀ y ∈ ys, q y := by
  induction items with
  | nil => exact .pure (by simp)
  | cons x rest ih =>
    rw [List.mapM_cons]
    refine (each x (by simp)).bind fun y here => ?_
    refine (ih fun z member => each z (by simp [member])).bind fun ys all => .pure ?_
    simpa using ⟨here, all⟩

end Succeeds

end Pass

end FiniteVolume
