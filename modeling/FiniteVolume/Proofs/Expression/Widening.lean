import FiniteVolume.Proofs.Expression.Pointwise

/-!
Widening before or after an evaluation.

An expression over edge values may be evaluated on edges, and the result read on element edges; or
its models may be read on element edges before it is evaluated. The values are related all the way
(`Expr.widens_recompute`), so that the results are the same field.
-/
namespace FiniteVolume

variable {β α : Type} [Scalar α]

def Surroundings.widen (s : Surroundings) (k : Domain) (data : Field α) : Field α :=
  data.gather s.chunking (s.edgeMap k)

/-- A context with its edge models read on a domain of element edges. -/
def Context.widened (c : Context β α) (k : Domain) : Context β α :=
  { c with lookup := fun name => (c.lookup name).map fun answer => answer.map fun found =>
      if found.domain = .edge then ⟨k, c.surroundings.widen k found.data⟩ else found }

namespace Value

variable {s : Surroundings} {k : Domain}

/-- The second value is what an evaluation with edge models read on `k` finds where the evaluation
on edges finds the first. Values on domains that do not combine with `k` may be lost. -/
def Widens (s : Surroundings) (k : Domain) : Value α → Value α → Prop
  | scalar x, w => w = scalar x
  | field d data, w =>
    if d = .edge then w = field k (s.widen k data)
    else if d = k then w = field d data
    else w = field d data ∨ w = invalid
  | invalid, _ => True

theorem widens_edge {data : Field α} {w : Value α} :
    Widens s k (field .edge data) w ↔ w = field k (s.widen k data) := by simp [Widens]

theorem widens_same {data : Field α} {w : Value α} (element : k.isElementEdge = true) :
    Widens s k (field k data) w ↔ w = field k data := by
  have other : k ≠ .edge := by rintro rfl; cases element
  simp [Widens, other]

theorem widens_other {d : Domain} {data : Field α} {w : Value α} (notEdge : d ≠ .edge)
    (other : d ≠ k) : Widens s k (field d data) w ↔ w = field d data ∨ w = invalid := by
  simp [Widens, notEdge, other]

/-- Values that are no edge fields stay, unless they are lost. -/
theorem Widens.eq_or_invalid {v w : Value α} (widens : Widens s k v w) (valid : v.isInvalid = false)
    (notEdge : v.domain? ≠ some .edge) : w = v ∨ w = invalid := by
  cases v with
  | scalar x => exact .inl widens
  | invalid => cases valid
  | field d data =>
    have other : d ≠ .edge := fun same => notEdge (congrArg some same)
    simp only [Widens, if_neg other] at widens
    split at widens
    · exact .inl widens
    · exact widens

end Value

theorem Value.Widens.field_cases {s : Surroundings} {k d : Domain} {data : Field α} {w : Value α}
    (widens : Widens s k (field d data) w) :
    (∃ d' data', w = field d' data') ∨ (w = invalid ∧ d ≠ .edge ∧ d ≠ k) := by
  simp only [Widens] at widens
  split at widens
  · exact .inl ⟨_, _, widens⟩
  · split at widens
    · exact .inl ⟨_, _, widens⟩
    · rcases widens with same | lost
      · exact .inl ⟨_, _, same⟩
      · exact .inr ⟨lost, ‹_›, ‹_›⟩

/-! ## Operands -/

namespace Value

variable {s : Surroundings} {k : Domain} {context : String} {args args' : List (Value α)}
  {xs : List (Field α)}

theorem eq_of_widens_scalars {xs : List α}
    (related : List.Forall₂ (Widens s k) (xs.map scalar) args') : args' = xs.map scalar := by
  induction xs generalizing args' with
  | nil => simpa using related
  | cons x xs ih =>
    rw [List.map_cons, List.forall₂_cons_left_iff] at related
    obtain ⟨w, ws, head, tail, rfl⟩ := related
    rw [ih tail]
    exact congrArg (· :: _) head

/-- An operand on edges, and what it is with edge models read on element edges. -/
theorem lifts_widened {n : Nat} {v w : Value α} {x : Field α}
    (lifts : Lifts s .edge n v x) (widens : Widens s k v w) :
    Lifts s k (s.edgeMap k).size w (s.widen k x) ∧ (∀ a, w.domain? = some a → a = k) ∧
      (v.domain? = some .edge → w.domain? = some k) := by
  obtain ⟨lifted, -⟩ := lifts
  cases v with
  | invalid => cases lifted
  | scalar b =>
    obtain rfl : w = scalar b := widens
    obtain rfl := Option.some.inj lifted
    exact ⟨⟨rfl, rfl⟩, fun _ onDomain => (by cases onDomain), fun onEdges => (by cases onEdges)⟩
  | field d data =>
    have onEdges : d = .edge := by
      simp only [lift?] at lifted
      split at lifted
      · assumption
      · simp [Domain.isElementEdge] at lifted
    subst onEdges
    obtain rfl := widens_edge.mp widens
    obtain rfl : data = x := by simpa [lift?] using lifted
    exact ⟨⟨by simp [lift?], by simp [Surroundings.widen]⟩, by simp [domain?], fun _ => rfl⟩

/-- An operand on element edges stays the same field, also if it was one of edge values. -/
theorem lifts_kept (element : k.isElementEdge = true) {n : Nat} {v w : Value α} {x : Field α}
    (lifts : Lifts s k n v x) (widens : Widens s k v w) :
    Lifts s k n w x ∧ (∀ a, w.domain? = some a → a = k) ∧
      (v.domain? = some k → w.domain? = some k) := by
  obtain ⟨lifted, size⟩ := lifts
  cases v with
  | invalid => cases lifted
  | scalar b =>
    obtain rfl : w = scalar b := widens
    exact ⟨⟨lifted, size⟩, fun _ onDomain => (by cases onDomain), fun here => (by cases here)⟩
  | field d data =>
    by_cases same : d = k
    · subst same
      obtain rfl := (widens_same element).mp widens
      exact ⟨⟨lifted, size⟩, by simp [domain?], fun _ => rfl⟩
    · simp only [lift?, if_neg same] at lifted
      split at lifted
      next onEdges =>
        obtain ⟨rfl, -⟩ := onEdges
        obtain rfl := widens_edge.mp widens
        obtain rfl := Option.some.inj lifted
        exact ⟨⟨by simp [lift?, Surroundings.widen], size⟩, by simp [domain?], fun _ => rfl⟩
      · cases lifted

theorem operands_of_each {d : Domain} {n m : Nat} (g : Field α → Field α)
    (each : ∀ {v w : Value α} {x : Field α}, Lifts s d n v x → Widens s k v w →
      Lifts s k m w (g x) ∧ (∀ a, w.domain? = some a → a = k) ∧
        (v.domain? = some d → w.domain? = some k))
    (common : Common d (args.map domain?)) (lifts : List.Forall₂ (Lifts s d n) args xs)
    (related : List.Forall₂ (Widens s k) args args') :
    operands s context args' = .ok (.fields k (xs.map g)) := by
  have all : List.Forall₂ (fun x w => ∃ v, Lifts s d n v x ∧ Widens s k v w) xs args' :=
    forall₂_trans (R := fun x v => Lifts s d n v x) (fun lifts widens => ⟨_, lifts, widens⟩)
      lifts.flip related
  refine operands_of_lifts (m := m) ?_ (fun w member => ?_) ?_
  · obtain ⟨v, member, domain⟩ := List.mem_map.mp common.1
    obtain ⟨x, -, lifted⟩ := exists_of_forall₂ lifts member
    obtain ⟨w, inside, widens⟩ := exists_of_forall₂ related member
    exact List.mem_map.mpr ⟨w, inside, (each lifted widens).2.2 domain⟩
  · obtain ⟨x, -, v, lifted, widens⟩ := exists_of_forall₂ all.flip member
    exact (each lifted widens).2.1
  · refine List.forall₂_map_right_iff.mpr (all.flip.imp fun w x found => ?_)
    obtain ⟨v, lifted, widens⟩ := found
    exact (each lifted widens).1

/-- Operands on another domain are lost, or stay the same. -/
theorem eq_of_operands_other {d : Domain} (element : k.isElementEdge = true) (notEdge : d ≠ .edge)
    (other : d ≠ k) (common : Common d (args.map domain?)) (valid : ∀ v ∈ args, v.isInvalid = false)
    (related : List.Forall₂ (Widens s k) args args') (valid' : ∀ v ∈ args', v.isInvalid = false)
    {operands' : Operands α} (combined : operands s context args' = .ok operands') :
    args' = args := by
  have keeps : ∀ {v w : Value α}, Widens s k v w → v.isInvalid = false → w.isInvalid = false →
      v.domain? ≠ some .edge → w = v := fun widens valid valid' notEdge =>
    (widens.eq_or_invalid valid notEdge).resolve_right fun lost => by simp [lost, isInvalid] at valid'
  -- an operand on `d` is still there, so that the others are on `d` too
  obtain ⟨v, member, domain⟩ := List.mem_map.mp common.1
  obtain ⟨w, inside, widens⟩ := exists_of_forall₂ related member
  obtain rfl := keeps widens (valid v member) (valid' w inside) (by simpa [domain] using notEdge)
  have joint : Common d (args'.map domain?) := by
    cases operands' with
    | scalars xs =>
      obtain rfl := eq_scalars_of_operands valid' combined
      obtain ⟨x, -, rfl⟩ := List.mem_map.mp inside
      cases domain
    | fields d' xs =>
      have common' := (operands_eq_fields_iff.mp combined).1
      have same : d = d' :=
        eq_of_widensTo (common'.2 d (List.mem_map.mpr ⟨w, inside, domain⟩)) notEdge
      exact same ▸ common'
  have noEdge : ∀ v ∈ args, v.domain? ≠ some .edge := fun v member onEdges => by
    cases v with
    | field source data =>
      obtain rfl : source = .edge := by simpa [domain?] using onEdges
      obtain ⟨w, inside, widens⟩ := exists_of_forall₂ related member
      obtain rfl := widens_edge.mp widens
      have onElements := joint.2 k (List.mem_map.mpr ⟨_, inside, rfl⟩)
      refine other (eq_of_widensTo onElements ?_).symm
      rintro rfl
      cases element
    | _ => cases onEdges
  have same : List.Forall₂ (· = ·) args' args := by
    have all := (List.forall₂_and_left _ _).mpr ⟨valid', ((List.forall₂_and_left _ _).mpr
      ⟨fun v member => And.intro (valid v member) (noEdge v member), related⟩).flip⟩
    exact all.imp fun w v given => keeps given.2.2 given.2.1.1 given.1 given.2.1.2
  rwa [List.forall₂_eq_eq_eq] at same

end Value

/-! ## Functions -/

section

variable [BaseScalar β] [Precision β α] {c : Context β α} {size : Domain → Nat} {k : Domain}
  {context : String} {f : Function α} {args args' : List (Value α)} {reporting : Bool}

open Value

/-- A value with fields of the right sizes, and what it is with edge models read on `k`. -/
structure Widened (c : Context β α) (size : Domain → Nat) (k : Domain) (v w : Value α) : Prop where
  sized : v.Fits size
  widens : Widens c.surroundings k v w

theorem Findings.widens_apply (fits : c.Fits size) (element : k.isElementEdge = true)
    (elementwise : ∀ r, f ≠ .reduction r) (sized : ∀ v ∈ args, v.Fits size)
    (related : List.Forall₂ (Widens c.surroundings k) args args') :
    Widens c.surroundings k (apply c context f args reporting).result
      (apply c context f args' reporting).result := by
  rcases result_apply c context args reporting elementwise with
    faulty | ⟨valid, operands, combined, applied⟩
  · rw [faulty]
    trivial
  · cases operands with
    | scalars xs =>
      obtain rfl := eq_scalars_of_operands valid combined
      obtain rfl := eq_of_widens_scalars related
      obtain ⟨y, -, result⟩ := applyTo_scalars applied
      rw [result]
      rfl
    | fields d xs =>
      obtain ⟨common, lifts⟩ := operands_eq_fields_iff.mp combined
      rw [extent_eq common.1 fun v member data same => sized v member d data same] at lifts
      -- The common domain decides: edges are widened, `k` stays, any other is kept or lost.
      by_cases onEdges : d = .edge
      · subst onEdges
        have sizes : ∀ x ∈ xs, x.size = size .edge := size_of_lifts lifts
        obtain ⟨z, result, widened⟩ := applyTo_gather sizes (fits.edges k element) applied
        rw [result, widens_edge]
        exact result_apply_of_fields reporting elementwise
          (operands_of_each _ lifts_widened common lifts related) (widened k)
      · by_cases same : d = k
        · subst same
          obtain ⟨z, result, -⟩ := applyTo_fields (size_of_lifts lifts) applied
          rw [result, widens_same element, ← result]
          exact result_apply_of_fields reporting elementwise
            (by simpa using operands_of_each id (lifts_kept element) common lifts related) applied
        · obtain ⟨z, result, -⟩ := applyTo_fields (size_of_lifts lifts) applied
          rw [result, widens_other onEdges same]
          rcases result_apply c context args' reporting elementwise with
            faulty | ⟨valid', operands', combined', -⟩
          · exact .inr faulty
          · obtain rfl := eq_of_operands_other element onEdges same common valid related valid' combined'
            exact .inl result

theorem Findings.widened_apply (fits : c.Fits size) (element : k.isElementEdge = true)
    (context : String) (f : Function α) (reporting : Bool) (elementwise : ∀ r, f ≠ .reduction r)
    (related : List.Forall₂ (Widened c size k) args args') :
    Widened c size k (apply c context f args reporting).result
      (apply c context f args' reporting).result := by
  have sized : ∀ v ∈ args, v.Fits size := fun v member =>
    (exists_of_forall₂ related member).elim fun _ found => found.2.sized
  exact ⟨(sampleAt_apply_le fits context reporting elementwise sized).1,
    widens_apply fits element elementwise sized (related.imp fun _ _ h => h.widens)⟩

/-- A function with an operand on a domain other than edges has its result there, if any. -/
theorem Findings.result_apply_on {d : Domain} {data : Field α} (elementwise : ∀ r, f ≠ .reduction r)
    (member : field d data ∈ args) (notEdge : d ≠ .edge) :
    (apply c context f args reporting).result = .invalid ∨
      ∃ z, (apply c context f args reporting).result = .field d z := by
  refine (result_apply c context args reporting elementwise).imp_right fun found => ?_
  obtain ⟨valid, operands, combined, applied⟩ := found
  cases operands with
  | scalars xs =>
    obtain rfl := eq_scalars_of_operands valid combined
    obtain ⟨x, -, same⟩ := List.mem_map.mp member
    cases same
  | fields d' xs =>
    obtain ⟨common, lifts⟩ := operands_eq_fields_iff.mp combined
    obtain rfl := eq_of_widensTo (common.2 d (List.mem_map.mpr ⟨_, member, rfl⟩)) notEdge
    obtain ⟨z, result, -⟩ := applyTo_fields (size_of_lifts lifts) applied
    exact ⟨z, result⟩

theorem Findings.result_apply_invalid (elementwise : ∀ r, f ≠ .reduction r)
    (member : invalid ∈ args) : (apply c context f args reporting).result = .invalid := by
  rcases result_apply c context args reporting elementwise with faulty | ⟨valid, -⟩
  · exact faulty
  · cases valid _ member

omit [BaseScalar β] [Precision β α] in
theorem widened_scalar (x : α) : Widened c size k (.scalar x) (.scalar x) :=
  ⟨fun _ _ same => (by cases same), rfl⟩

omit [BaseScalar β] [Precision β α] in
theorem widened_invalid (w : Value α) : Widened c size k .invalid w :=
  ⟨fun _ _ same => (by cases same), trivial⟩

theorem Findings.widened_lost {d : Domain} {data : Field α} (fits : c.Fits size) (context : String)
    (f : Function α) (reporting : Bool) (elementwise : ∀ r, f ≠ .reduction r)
    (sized : ∀ v ∈ args, v.Fits size) (member : field d data ∈ args) (notEdge : d ≠ .edge)
    (other : d ≠ k) : Widened c size k (apply c context f args reporting).result .invalid := by
  refine ⟨(sampleAt_apply_le fits context reporting elementwise sized).1, ?_⟩
  rcases result_apply_on elementwise member notEdge with faulty | ⟨z, result⟩
  · rw [faulty]
    trivial
  · rw [result]
    exact (widens_other notEdge other).mpr (.inr rfl)

end

/-! ## Expressions -/

namespace Expr

open Value

variable [BaseScalar β] [Precision β α] {c : Context β α} {functions : Registry α}
  {size : Domain → Nat} {k : Domain}

omit [BaseScalar β] [Precision β α] in
/-- Reading edge models on element edges makes no value infinite. -/
theorem isFinite_of_widened {v w : Value α} (fits : c.Fits size) (element : k.isElementEdge = true)
    (widened : Widened c size k v w) (valid : v ≠ .invalid) (finite : v.isFinite = true) :
    w.isFinite = true := by
  obtain ⟨sized, widens⟩ := widened
  cases v with
  | invalid => exact absurd rfl valid
  | scalar x =>
    obtain rfl : w = scalar x := widens
    exact finite
  | field d data =>
    by_cases onEdges : d = .edge
    · subst onEdges
      obtain rfl := widens_edge.mp widens
      exact Field.isFinite_gather _ _ (fun j member => sized _ _ rfl ▸ fits.edges k element j member)
        finite
    · rcases widens.eq_or_invalid rfl (by simpa [domain?] using onEdges) with rfl | rfl
      · exact finite
      · rfl

omit [Precision β α] in
theorem widened_screen {e : Expr β} {found found' : Findings (Value α)} (fits : c.Fits size)
    (element : k.isElementEdge = true) (widened : Widened c size k found.result found'.result) :
    Widened c size k (Findings.screen e found).result (Findings.screen e found').result := by
  by_cases faulty : found.result = .invalid
  · have lost : (Findings.screen e found).result = .invalid := by
      unfold Findings.screen
      split
      · exact faulty
      · rfl
    rw [lost]
    exact widened_invalid _
  · unfold Findings.screen
    split
    next finite =>
      rw [if_pos (isFinite_of_widened fits element widened faulty finite)]
      exact widened
    · exact widened_invalid _

omit [BaseScalar β] [Precision β α] in
theorem widened_model (fits : c.Fits size) (name : String) :
    Widened c size k (Findings.model c name).result (Findings.model (c.widened k) name).result := by
  unfold Findings.model
  simp only [Context.widened]
  cases answer : c.lookup name with
  | error cause => exact widened_invalid _
  | ok found =>
    cases found with
    | none => exact widened_invalid _
    | some found =>
      refine ⟨fun d data same => by cases same; exact fits.fields name found answer, ?_⟩
      simp only [Except.map, Option.map_some, Findings.result_pure, Widens]
      split
      · rfl
      · split
        · rfl
        · exact .inl rfl

/-- A product with an invalid factor is invalid, unless another factor is zero. -/
theorem recomputeProduct_invalid (c : Context β α) (functions : Registry α) (xs : List (Expr β)) :
    (recomputeProduct c functions .invalid xs).result = .invalid ∨
      (recomputeProduct c functions .invalid xs).result = .scalar 0 := by
  induction xs with
  | nil => exact .inl rfl
  | cons x xs ih =>
    rw [recomputeProduct, Findings.result_bind]
    split
    · exact .inr rfl
    · exact ih

theorem widened_ifThen (fits : c.Fits size) (element : k.isElementEdge = true) {cond t : Expr β}
    (mask : Widened c size k (cond.recompute c functions).result
      (cond.recompute (c.widened k) functions).result)
    (selected : Widened c size k (t.recompute c functions).result
      (t.recompute (c.widened k) functions).result) :
    Widened c size k ((ifThen cond t).recompute c functions).result
      ((ifThen cond t).recompute (c.widened k) functions).result := by
  refine widened_screen fits element ?_
  rw [Findings.result_bind, Findings.result_bind]
  generalize (cond.recompute c functions).result = v at mask
  generalize (cond.recompute (c.widened k) functions).result = w at mask
  cases v with
  | invalid => exact widened_invalid _
  | scalar x =>
    obtain rfl : w = scalar x := mask.widens
    dsimp only
    split
    · exact widened_scalar 0
    · exact selected
  | field d data =>
    rcases mask.widens.field_cases with ⟨d', data', rfl⟩ | ⟨rfl, notEdge, other⟩
    · exact Findings.widened_apply fits element "if" (.binary (· * ·)) false (Function.binary_ne _)
        (.cons mask (.cons selected .nil))
    · exact Findings.widened_lost fits "if" (.binary (· * ·)) false (Function.binary_ne _)
        (by simpa using ⟨mask.sized, selected.sized⟩) List.mem_cons_self notEdge other

theorem widened_ifElse (fits : c.Fits size) (element : k.isElementEdge = true) {cond t e : Expr β}
    (mask : Widened c size k (cond.recompute c functions).result
      (cond.recompute (c.widened k) functions).result)
    (whenTrue : Widened c size k (t.recompute c functions).result
      (t.recompute (c.widened k) functions).result)
    (whenFalse : Widened c size k (e.recompute c functions).result
      (e.recompute (c.widened k) functions).result) :
    Widened c size k ((ifElse cond t e).recompute c functions).result
      ((ifElse cond t e).recompute (c.widened k) functions).result := by
  refine widened_screen fits element ?_
  rw [Findings.result_bind, Findings.result_bind]
  generalize (cond.recompute c functions).result = v at mask
  generalize (cond.recompute (c.widened k) functions).result = w at mask
  cases v with
  | invalid => exact widened_invalid _
  | scalar x =>
    obtain rfl : w = scalar x := mask.widens
    dsimp only
    split
    · exact whenFalse
    · exact whenTrue
  | field d data =>
    rcases mask.widens.field_cases with ⟨d', data', rfl⟩ | ⟨rfl, notEdge, other⟩
    · exact Findings.widened_apply fits element "ifelse" (.ternary Special.select) false
        (Function.ternary_ne _) (.cons mask (.cons whenTrue (.cons whenFalse .nil)))
    · exact Findings.widened_lost fits "ifelse" (.ternary Special.select) false
        (Function.ternary_ne _) (by simpa using ⟨mask.sized, whenTrue.sized, whenFalse.sized⟩)
        List.mem_cons_self notEdge other

theorem widened_call (fits : c.Fits size) (element : k.isElementEdge = true) {name : String}
    {args : List (Expr β)} (elementwise : Elementwise functions (call name args))
    (operands : List.Forall₂ (Widened c size k) (recomputeList c functions args).result
      (recomputeList (c.widened k) functions args).result) :
    Widened c size k ((call name args).recompute c functions).result
      ((call name args).recompute (c.widened k) functions).result := by
  refine widened_screen fits element ?_
  cases found : functions.get? name with
  | none => exact widened_invalid _
  | some f =>
    dsimp only
    split
    · exact widened_invalid _
    · have notReduction : ∀ r, f ≠ .reduction r := fun r same =>
        elementwise name args r rfl (same ▸ found)
      exact Findings.widened_apply fits element name f true notReduction operands

mutual

theorem widened_recompute (fits : c.Fits size) (element : k.isElementEdge = true) : ∀ e : Expr β,
    (∀ x ∈ e.subtrees, Elementwise functions x) → Widened c size k
      (e.recompute c functions).result (e.recompute (c.widened k) functions).result
  | constant _, _ => widened_scalar _
  | invalid _, _ => widened_invalid _
  | parameter n, _ => by
    refine widened_screen fits element ?_
    change Widened c size k (Findings.parameter c n).result (Findings.parameter c n).result
    unfold Findings.parameter
    cases c.parameter n with
    | none => exact widened_invalid _
    | some v => exact widened_scalar _
  | model n, _ => widened_screen fits element (widened_model fits n)
  | sum [], _ => widened_screen fits element (widened_scalar 0)
  | sum (x :: xs), within => by
    obtain ⟨-, below⟩ := List.forall_mem_cons.mp within
    obtain ⟨head, tail⟩ := List.forall_mem_append.mp below
    exact widened_screen fits element
      (widened_recomputeSum fits element xs tail (widened_recompute fits element x head))
  | product xs, within => by
    obtain ⟨-, below⟩ := List.forall_mem_cons.mp within
    exact widened_screen fits element
      (widened_recomputeProduct fits element xs below (widened_scalar 1))
  | ifThen cond t, within => by
    obtain ⟨-, below⟩ := List.forall_mem_cons.mp within
    obtain ⟨condition, body⟩ := List.forall_mem_append.mp below
    exact widened_ifThen fits element (widened_recompute fits element cond condition)
      (widened_recompute fits element t body)
  | ifElse cond t e, within => by
    obtain ⟨-, below⟩ := List.forall_mem_cons.mp within
    obtain ⟨both, otherwise⟩ := List.forall_mem_append.mp below
    obtain ⟨condition, body⟩ := List.forall_mem_append.mp both
    exact widened_ifElse fits element (widened_recompute fits element cond condition)
      (widened_recompute fits element t body) (widened_recompute fits element e otherwise)
  | call name args, within => by
    obtain ⟨here, below⟩ := List.forall_mem_cons.mp within
    exact widened_call fits element here (widened_recomputeList fits element args below)

theorem widened_recomputeList (fits : c.Fits size) (element : k.isElementEdge = true) :
    ∀ xs : List (Expr β), (∀ x ∈ subtreesOfList xs, Elementwise functions x) →
      List.Forall₂ (Widened c size k) (recomputeList c functions xs).result
        (recomputeList (c.widened k) functions xs).result
  | [], _ => .nil
  | x :: xs, within => by
    obtain ⟨head, tail⟩ := List.forall_mem_append.mp within
    exact .cons (widened_recompute fits element x head) (widened_recomputeList fits element xs tail)

theorem widened_recomputeSum (fits : c.Fits size) (element : k.isElementEdge = true) :
    ∀ (xs : List (Expr β)) {total total' : Value α}, (∀ x ∈ subtreesOfList xs, Elementwise functions x) →
      Widened c size k total total' → Widened c size k (recomputeSum c functions total xs).result
        (recomputeSum (c.widened k) functions total' xs).result
  | [], _, _, _, widened => widened
  | x :: xs, total, total', within, widened => by
    obtain ⟨head, tail⟩ := List.forall_mem_append.mp within
    have term := widened_recompute fits element x head
    exact widened_recomputeSum fits element xs tail (Findings.widened_apply fits element "+"
      (.binary (· + ·)) false (Function.binary_ne _) (.cons widened (.cons term .nil)))

theorem widened_recomputeProduct (fits : c.Fits size) (element : k.isElementEdge = true) :
    ∀ (xs : List (Expr β)) {total total' : Value α}, (∀ x ∈ subtreesOfList xs, Elementwise functions x) →
      Widened c size k total total' → Widened c size k (recomputeProduct c functions total xs).result
        (recomputeProduct (c.widened k) functions total' xs).result
  | [], _, _, _, widened => widened
  | x :: xs, total, total', within, widened => by
    obtain ⟨head, tail⟩ := List.forall_mem_append.mp within
    have factor := widened_recompute fits element x head
    rw [recomputeProduct, recomputeProduct, Findings.result_bind, Findings.result_bind]
    generalize (x.recompute c functions).result = v at factor
    generalize (x.recompute (c.widened k) functions).result = w at factor
    have related : List.Forall₂ (Widened c size k) [total, v] [total', w] :=
      .cons widened (.cons factor .nil)
    have product := Findings.widened_apply fits element "*" (.binary (· * ·)) false
      (Function.binary_ne _) related
    have rest := widened_recomputeProduct fits element xs tail product
    cases v with
    | scalar z =>
      obtain rfl : w = scalar z := factor.widens
      split
      · exact widened_scalar 0
      · exact rest
    | field d data =>
      have nonzero : ¬w.isScalarZero = true := by
        rcases factor.widens.field_cases with ⟨_, _, rfl⟩ | ⟨rfl, -⟩ <;> exact Bool.false_ne_true
      have field_nonzero : ¬(field d data).isScalarZero = true := Bool.false_ne_true
      rw [if_neg field_nonzero, if_neg nonzero]
      exact rest
    | invalid =>
      have lost : (Findings.apply c "*" (.binary (· * ·)) [total, .invalid] false).result = .invalid :=
        Findings.result_apply_invalid (Function.binary_ne _) (by simp)
      have invalid_nonzero : ¬(Value.invalid : Value α).isScalarZero = true := Bool.false_ne_true
      rw [if_neg invalid_nonzero, Findings.result_bind, lost]
      split
      · rcases recomputeProduct_invalid c functions xs with invalid | zero
        · rw [invalid]
          exact widened_invalid _
        · rw [zero]
          exact widened_scalar 0
      · exact widened_recomputeProduct fits element xs tail (widened_invalid _)

end

/-! ## Results -/

omit [BaseScalar β] [Precision β α] in
theorem widenTo_eq_self {s : Surroundings} {v : Value α} (expected : Option Domain)
    (notEdge : v.domain? ≠ some .edge) : widenTo s expected v = v := by
  unfold widenTo
  split
  · exact absurd rfl notEdge
  · rfl

omit [BaseScalar β] [Precision β α] in
theorem widenTo_edge {s : Surroundings} {data : Field α} {d : Domain} (element : d.isElementEdge = true) :
    widenTo s (some d) (.field .edge data) = .field d (s.widen d data) := if_pos element

omit [BaseScalar β] [Precision β α] in
theorem sampleAt_widenTo_le (fits : c.Fits size) {v : Value α} (sized : v.Fits size)
    (expected : Option Domain) (k : Domain) (i : Nat) :
    (widenTo c.surroundings expected v).sampleAt c.surroundings k i ≤
      v.sampleAt c.surroundings k i := by
  unfold widenTo
  split
  next d data =>
    split
    next element =>
      have other : Domain.edge ≠ d := by rintro rfl; cases element
      have inside : ∀ j ∈ c.surroundings.edgeMap d, j < data.size := fun j member =>
        sized _ _ rfl ▸ fits.edges d element j member
      by_cases same : d = k
      · subst same
        refine .inr ?_
        simp only [Value.sampleAt, Surroundings.position?, if_pos, if_neg other, element, and_self,
          Option.bind_some, Field.get?_gather _ _ inside]
      · refine .inl ?_
        simp [Value.sampleAt, Surroundings.position?, same, other.symm, Sample.ofOption]
    · exact le_refl _
  · exact le_refl _

/-- A result on element edges is the same, whichever way it was widened. -/
theorem widenTo_of_widens {s : Surroundings} {v w : Value α} (element : k.isElementEdge = true)
    (widens : Widens s k v w) (expected : Option Domain) :
    (∀ data, widenTo s (some k) v = .field k data → widenTo s expected w = .field k data) ∧
      ∀ x, widenTo s (some k) v = .scalar x → widenTo s expected w = .scalar x := by
  have notEdge : k ≠ .edge := by rintro rfl; cases element
  have kept : ∀ data : Field α, widenTo s expected (.field k data) = .field k data := fun data =>
    widenTo_eq_self expected (by simpa [domain?] using notEdge)
  cases v with
  | invalid => exact ⟨fun _ same => (by cases same), fun _ same => (by cases same)⟩
  | scalar x =>
    obtain rfl : w = scalar x := widens
    exact ⟨fun _ same => (by cases same),
      fun y same => (widenTo_eq_self expected (by simp [domain?])).trans same⟩
  | field d data =>
    refine ⟨fun found same => ?_, fun x same => ?_⟩
    · by_cases onEdges : d = .edge
      · subst onEdges
        rw [widenTo_edge element] at same
        rw [widens_edge.mp widens, same, kept]
      · rw [widenTo_eq_self _ (by simpa [domain?] using onEdges)] at same
        cases same
        rw [(widens_same element).mp widens, kept]
    · unfold Expr.widenTo at same
      split at same
      · split at same <;> cases same
      · cases same

/-- An evaluation computes, at every element, what the expression gives there: a number is that of
every element, a field has the number of each. Reading the edge models on element edges before the
evaluation makes no difference to a result on element edges. -/
theorem evaluate_pointwise (c : Context β α) (functions : Registry α) (e : Expr β)
    (expected : Option Domain) (size : Domain → Nat) (fits : c.Fits size) (distinct : e.DistinctKeys)
    (elementwise : ∀ x ∈ e.subtrees, Elementwise functions x) :
    let value := (c.answer (e.evaluate c.surroundings functions expected)).value
    (∀ x, value = .scalar x → ∀ k i, e.sampleAt c functions k i = .everywhere x) ∧
      (∀ k data, value = .field k data → ∀ i x, data.get? i = some x →
        e.sampleAt c functions k i = .here x) ∧
      ∀ k, k.isElementEdge = true → expected = some k → ∀ expected',
        let leaves := ((c.widened k).answer (e.evaluate c.surroundings functions expected')).value
        (∀ data, value = .field k data → leaves = .field k data) ∧
          ∀ x, value = .scalar x → leaves = .scalar x := by
  have whole := (evaluate_of_alike (distinct.alike c functions) expected).1
  obtain ⟨sized, below⟩ := agrees_recompute fits e elementwise
  have samples := fun k i => le_trans (sampleAt_widenTo_le fits sized expected k i) (below k i)
  dsimp only
  rw [whole]
  refine ⟨fun x value k i => ?_, fun k data value i x found => ?_, ?_⟩
  · have here := samples k i
    rw [show widenTo _ _ _ = _ from value] at here
    exact (here.resolve_left fun lost => by cases lost).symm
  · have here := samples k i
    rw [show widenTo _ _ _ = _ from value] at here
    have number : (Value.field k data).sampleAt c.surroundings k i = .here x := by
      simp [Value.sampleAt, Surroundings.position?, found, Sample.ofOption]
    rw [number] at here
    exact (here.resolve_left fun lost => by cases lost).symm
  · rintro k element rfl expected'
    have widens := (widened_recompute fits element e elementwise).widens
    have leaves := (evaluate_of_alike (distinct.alike (c.widened k) functions) expected').1
    have kept := widenTo_of_widens element widens expected'
    exact ⟨fun data value => leaves.trans (kept.1 data value),
      fun x value => leaves.trans (kept.2 x value)⟩

/-- The larger of an edge model and a parameter, added to their product. -/
def clipped : Expr ℚ :=
  sum [product [model "e", parameter "p"],
    ifElse (call ">" [model "e", parameter "p"]) (model "e") (parameter "p")]

def corners : Context ℚ ℚ where
  lookup name := .ok (if name = "e" then some ⟨.edge, .vector #[1, 2, 3]⟩ else none)
  parameter name := if name = "p" then some 2 else none
  surroundings := { edgeMap := fun _ => #[2, 0, 1], chunking := .serial }

theorem evaluate_pointwise_of_clipped :
    let value := (corners.answer
      (clipped.evaluate corners.surroundings .builtin (some .triangleEdge))).value
    let leaves := ((corners.widened .triangleEdge).answer
      (clipped.evaluate corners.surroundings .builtin none)).value
    value = .field .triangleEdge (.vector #[9, 4, 6]) ∧
      clipped.sampleAt corners .builtin .triangleEdge 0 = .here 9 ∧
      leaves = .field .triangleEdge (.vector #[9, 4, 6]) := by
  have fits : corners.Fits fun _ => 3 := by
    refine ⟨fun name found answer => ?_, fun _ _ => show ∀ j ∈ #[2, 0, 1], j < 3 by decide⟩
    simp only [corners, Except.ok.injEq] at answer
    split at answer
    · cases answer
      rfl
    · cases answer
  have within : clipped.subtrees ⊆ [clipped, product [model "e", parameter "p"], model "e",
      parameter "p", ifElse (call ">" [model "e", parameter "p"]) (model "e") (parameter "p"),
      call ">" [model "e", parameter "p"]] := fun x member => by
    simp only [clipped, subtrees, subtreesOfList, List.cons_append, List.nil_append,
      List.append_nil, List.mem_cons, List.not_mem_nil, or_false] at member ⊢
    grind
  have distinct : clipped.DistinctKeys := distinctKeys_of_nodup _ within (by decide +kernel)
  have elementwise : ∀ x ∈ clipped.subtrees, Elementwise (α := ℚ) .builtin x := by
    rintro x member name args r rfl found
    have listed := within member
    simp only [clipped, List.mem_cons, reduceCtorEq, List.not_mem_nil, or_false, false_or,
      call.injEq] at listed
    obtain ⟨rfl, -⟩ := listed
    have binary : ((Registry.builtin : Registry ℚ).get? ">").map Function.arity = some 2 := by
      decide +kernel
    rw [found] at binary
    cases binary
  have value : (corners.answer (clipped.evaluate corners.surroundings .builtin
      (some .triangleEdge))).value = .field .triangleEdge (.vector #[9, 4, 6]) := by decide +kernel
  obtain ⟨-, elements, widened⟩ := evaluate_pointwise corners .builtin clipped (some .triangleEdge)
    (fun _ => 3) fits distinct elementwise
  exact ⟨value, elements _ _ value 0 9 rfl, (widened _ rfl rfl none).1 _ value⟩

end Expr

end FiniteVolume
