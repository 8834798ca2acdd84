import FiniteVolume.Proofs.Expression.Memory
import FiniteVolume.Proofs.Expression.Operands
import Mathlib.Order.Basic

/-!
Evaluation one element at a time.

`Expr.sampleAt` evaluates an expression at one element of a domain, with numbers only. The value that
an evaluation returns has this number at the element, unless a fault keeps the evaluation from
returning any (`Expr.agrees_recompute`).
-/
namespace FiniteVolume

variable {β α : Type}

/-! ## Samples -/

/-- What an expression gives at one element: a number that is the same at every element, a number
for this element, or nothing. -/
inductive Sample (α : Type) where
  | everywhere (x : α)
  | here (x : α)
  | missing

namespace Sample

def number? : Sample α → Option α
  | everywhere x | here x => some x
  | missing => none

def isEverywhere : Sample α → Bool
  | everywhere _ => true
  | _ => false

def ofOption : Option α → Sample α
  | some x => here x
  | none => missing

@[simp] theorem isEverywhere_ofOption (x : Option α) : (ofOption x).isEverywhere = false := by
  cases x <;> rfl

/-- The same number, for this element only. -/
def localized : Sample α → Sample α
  | everywhere x => here x
  | s => s

def apply (f : Function α) (xs : List (Sample α)) : Sample α :=
  match (xs.mapM number?).bind (Value.onNumbers? f) with
  | none => missing
  | some y => if xs.all isEverywhere then everywhere y else here y

/-- A sample is below another if it is the same, or nothing. -/
instance : PartialOrder (Sample α) where
  le a b := a = missing ∨ a = b
  le_refl a := .inr rfl
  le_trans a b c := by rintro (rfl | rfl) <;> grind
  le_antisymm a b := by grind

theorem missing_le (a : Sample α) : missing ≤ a := .inl rfl

theorem mapM_number?_eq_none {xs : List (Sample α)} (member : missing ∈ xs) :
    xs.mapM number? = none := by
  induction xs with
  | nil => cases member
  | cons x xs ih =>
    rw [List.mapM_cons]
    rcases List.mem_cons.mp member with rfl | below
    · rfl
    · cases x.number? <;> simp [ih below]

theorem apply_of_missing_mem {xs : List (Sample α)} (f : Function α) (member : missing ∈ xs) :
    apply f xs = missing := by
  rw [apply, mapM_number?_eq_none member]
  rfl

/-- Where nothing is missing, samples that are below others are the same. -/
theorem eq_or_missing_mem {xs ys : List (Sample α)} (below : List.Forall₂ (· ≤ ·) xs ys) :
    missing ∈ xs ∨ xs = ys := by
  induction below with
  | nil => exact .inr rfl
  | cons head _ ih =>
    rcases head with rfl | rfl
    · exact .inl List.mem_cons_self
    · exact ih.imp (List.mem_cons_of_mem _) (congrArg _)

theorem apply_eq {f : Function α} {xs : List (Sample α)} {ys : List α} {y : α}
    (numbers : List.Forall₂ (fun s x => s.number? = some x) xs ys)
    (onNumbers : Value.onNumbers? f ys = some y) :
    apply f xs = if xs.all isEverywhere then everywhere y else here y := by
  rw [apply, mapM_eq_some_iff.mpr numbers, Option.bind_some, onNumbers]

theorem apply_mono {xs ys : List (Sample α)} (f : Function α)
    (below : List.Forall₂ (· ≤ ·) xs ys) : apply f xs ≤ apply f ys := by
  rcases eq_or_missing_mem below with member | rfl
  · rw [apply_of_missing_mem f member]
    exact missing_le _
  · exact le_refl _

section

variable [Scalar α]

/-- The number zero, as opposed to a zero at one element. -/
def isZero : Sample α → Bool
  | everywhere x => Scalar.eq x 0
  | _ => false

def add (a b : Sample α) : Sample α := apply (.binary (· + ·)) [a, b]

def mul (a b : Sample α) : Sample α := apply (.binary (· * ·)) [a, b]

/-- Multiply `total` by further factors, unless one is the number zero. -/
def productFrom (total : Sample α) (factors : List (Sample α)) : Sample α :=
  if factors.any isZero then everywhere 0 else factors.foldl mul total

theorem productFrom_cons (total x : Sample α) (xs : List (Sample α)) :
    productFrom total (x :: xs) = if x.isZero then everywhere 0 else productFrom (total.mul x) xs := by
  unfold productFrom
  cases zero : x.isZero <;> simp [zero]

theorem mul_mono {a a' b b' : Sample α} (left : a ≤ a') (right : b ≤ b') : a.mul b ≤ a'.mul b' :=
  apply_mono _ (.cons left (.cons right .nil))

theorem foldl_mul_mono {a b : Sample α} (below : a ≤ b) (xs : List (Sample α)) :
    xs.foldl mul a ≤ xs.foldl mul b := by
  induction xs generalizing a b with
  | nil => exact below
  | cons x xs ih => exact ih (mul_mono below (le_refl x))

theorem productFrom_missing_le (xs : List (Sample α)) : productFrom missing xs ≤ everywhere 0 := by
  have lost : xs.foldl mul missing = missing := by
    induction xs with
    | nil => rfl
    | cons x xs ih => exact (congrArg (xs.foldl mul) (apply_of_missing_mem _ List.mem_cons_self)).trans ih
  unfold productFrom
  split
  · exact le_refl _
  · exact .inl lost

/-- A selection at one element, whichever the branch that is not taken. -/
theorem apply_select_le (x : α) (a b : Sample α) : apply (.ternary Special.select) [here x, a, b] ≤
    if Scalar.eq x 0 then b.localized else a.localized := by
  cases a with
  | missing => exact .inl (apply_of_missing_mem _ (by simp))
  | everywhere y | here y =>
    cases b with
    | missing => exact .inl (apply_of_missing_mem _ (by simp))
    | everywhere z | here z =>
      cases zero : Scalar.eq x 0 <;>
        exact .inr (by simp [apply, number?, Value.onNumbers?, isEverywhere, localized, zero,
          Special.select, Special.isTrue])

theorem productFrom_mono {a b : Sample α} (below : a ≤ b) (xs : List (Sample α)) :
    productFrom a xs ≤ productFrom b xs := by
  unfold productFrom
  split
  · exact le_refl _
  · exact foldl_mul_mono below xs

end

end Sample

/-! ## Values at an element -/

/-- The element of a field on the domain `source` that is read at element `i` of the domain `k`. -/
def Surroundings.position? (s : Surroundings) (k : Domain) (i : Nat) (source : Domain) : Option Nat :=
  if source = k then some i
  else if source = .edge ∧ k.isElementEdge then (s.edgeMap k)[i]?
  else none

def Value.sampleAt (s : Surroundings) (k : Domain) (i : Nat) : Value α → Sample α
  | scalar x => .everywhere x
  | field source data => .ofOption ((s.position? k i source).bind data.get?)
  | invalid => .missing

theorem Value.sampleAt_field (s : Surroundings) (k : Domain) (i : Nat) (d : Domain) (data : Field α) :
    (field d data).sampleAt s k i = .missing ∨ ∃ x, (field d data).sampleAt s k i = .here x := by
  rw [sampleAt]
  cases (s.position? k i d).bind data.get? with
  | none => exact .inl rfl
  | some x => exact .inr ⟨x, rfl⟩

/-- Fields with one value for each element of their domain. -/
def Value.Fits (size : Domain → Nat) (v : Value α) : Prop :=
  ∀ d data, v = field d data → data.size = size d

/-- A context with fields of the sizes of their domains, in which element edges are edges. -/
structure Context.Fits (size : Domain → Nat) (c : Context β α) : Prop where
  fields : ∀ name found, c.lookup name = .ok (some found) → found.data.size = size found.domain
  edges : ∀ k, k.isElementEdge = true → ∀ j ∈ c.surroundings.edgeMap k, j < size .edge

namespace Value

variable [Scalar α] {s : Surroundings} {size : Domain → Nat} {k : Domain} {i : Nat}

/-- An operand that was brought to a domain has there the elements that it has on its own. -/
theorem number?_of_lifts {d : Domain} {n j : Nat} {v : Value α} {x : Field α} {a : α}
    (edges : ∀ k, k.isElementEdge = true → ∀ j ∈ s.edgeMap k, j < size .edge) (fits : v.Fits size)
    (lifts : Lifts s d n v x) (position : s.position? k i d = some j) (found : x.get? j = some a) :
    (v.sampleAt s k i).number? = some a := by
  obtain ⟨lifted, -⟩ := lifts
  cases v with
  | invalid => cases lifted
  | scalar b =>
    obtain rfl := Option.some.inj lifted
    simp only [Field.get?] at found
    split at found
    · exact found
    · cases found
  | field source data =>
    simp only [lift?] at lifted
    split at lifted
    · subst source
      obtain rfl := Option.some.inj lifted
      simp [sampleAt, position, found, Sample.ofOption, Sample.number?]
    · split at lifted
      · rename_i other widens
        obtain ⟨rfl, element⟩ := widens
        obtain rfl := Option.some.inj lifted
        -- Edge values were lifted through an edge map, so the common domain is that of the element.
        have here : d = k ∧ i = j := by
          unfold Surroundings.position? at position
          split at position
          · exact ⟨‹_›, Option.some.inj position⟩
          · split at position
            · rename_i onEdges
              exact absurd onEdges.1.symm other
            · cases position
        obtain ⟨rfl, rfl⟩ := here
        rw [Field.get?_gather _ _ (fun j member => fits _ _ rfl ▸ edges d element j member)] at found
        have read : s.position? d i .edge = (s.edgeMap d)[i]? := by
          unfold Surroundings.position?
          rw [if_neg other, if_pos ⟨rfl, element⟩]
        simp [sampleAt, read, found, Sample.ofOption, Sample.number?]
      · cases lifted

/-- Operands that were brought to a domain have there the elements that they have on their own. -/
theorem numbers_of_lifts {d : Domain} {n j : Nat} {vs : List (Value α)} {xs : List (Field α)}
    {ys : List α} (edges : ∀ k, k.isElementEdge = true → ∀ j ∈ s.edgeMap k, j < size .edge)
    (sized : ∀ v ∈ vs, v.Fits size) (lifts : List.Forall₂ (Lifts s d n) vs xs)
    (position : s.position? k i d = some j) (found : xs.mapM (·.get? j) = some ys) :
    List.Forall₂ (fun a y => a.number? = some y) (vs.map (·.sampleAt s k i)) ys := by
  rw [List.forall₂_map_left_iff]
  refine forall₂_trans ?_ ((List.forall₂_and_left _ _).mpr ⟨sized, lifts⟩) (mapM_eq_some_iff.mp found)
  exact fun lifted element => number?_of_lifts edges lifted.1 lifted.2 position element

omit [Scalar α] in
/-- Fields have their numbers at single elements. -/
theorem not_all_isEverywhere {d : Domain} {vs : List (Value α)} (field : some d ∈ vs.map domain?) :
    ¬(vs.map (·.sampleAt s k i)).all Sample.isEverywhere = true := by
  obtain ⟨v, member, domain⟩ := List.mem_map.mp field
  intro all
  have everywhere := List.all_eq_true.mp all _ (List.mem_map_of_mem member)
  cases v with
  | field source data => simp [sampleAt] at everywhere
  | _ => cases domain

end Value

/-! ## Functions at an element -/

variable [BaseScalar β] [Scalar α] [Precision β α]

/-- The result of a function has at every element what the function gives for the operands there. -/
theorem Findings.sampleAt_apply_le {c : Context β α} {size : Domain → Nat} (fits : c.Fits size)
    (context : String) {f : Function α} {args : List (Value α)} (reporting : Bool)
    (elementwise : ∀ r, f ≠ .reduction r) (sized : ∀ v ∈ args, v.Fits size) :
    (apply c context f args reporting).result.Fits size ∧ ∀ k i,
      (apply c context f args reporting).result.sampleAt c.surroundings k i ≤
        Sample.apply f (args.map (·.sampleAt c.surroundings k i)) := by
  rcases result_apply c context args reporting elementwise with
    faulty | ⟨valid, operands, combined, applied⟩
  · rw [faulty]
    exact ⟨fun _ _ same => (by cases same), fun k i => Sample.missing_le _⟩
  · generalize (apply c context f args reporting).result = r at applied
    cases operands with
    | scalars xs =>
      obtain rfl := Value.eq_scalars_of_operands valid combined
      obtain ⟨y, onNumbers, rfl⟩ := Value.applyTo_scalars applied
      refine ⟨fun _ _ same => (by cases same), fun k i => .inr ?_⟩
      have numbers : List.Forall₂ (fun s x => s.number? = some x)
          ((xs.map Value.scalar).map (·.sampleAt c.surroundings k i)) xs := by
        rw [List.map_map, List.forall₂_map_left_iff]
        exact List.forall₂_same.mpr fun x _ => rfl
      have everywhere : ((xs.map Value.scalar).map (·.sampleAt c.surroundings k i)).all
          Sample.isEverywhere = true := by simp [Value.sampleAt, Sample.isEverywhere]
      rw [Sample.apply_eq numbers onNumbers, if_pos everywhere]
      rfl
    | fields d xs =>
      obtain ⟨common, lifts⟩ := Value.operands_eq_fields_iff.mp combined
      have extent := Value.extent_eq (s := c.surroundings) common.1
        fun v member data same => sized v member d data same
      rw [extent] at lifts
      obtain ⟨z, rfl, sizeZ, elements⟩ := Value.applyTo_fields (Value.size_of_lifts lifts) applied
      refine ⟨fun _ _ same => by cases same; exact sizeZ, fun k i => ?_⟩
      -- Where the domain has no position for the element, the value has no number there.
      cases position : c.surroundings.position? k i d with
      | none => exact .inl (by simp [Value.sampleAt, position, Sample.ofOption])
      | some j =>
        cases found : z.get? j with
        | none => exact .inl (by simp [Value.sampleAt, position, found, Sample.ofOption])
        | some y =>
          rw [elements] at found
          obtain ⟨ys, mapped, onNumbers⟩ := Option.bind_eq_some_iff.mp found
          have numbers := Value.numbers_of_lifts fits.edges sized lifts position mapped
          rw [Sample.apply_eq numbers onNumbers, if_neg (Value.not_all_isEverywhere common.1)]
          refine .inr ?_
          rw [Value.sampleAt, position, Option.bind_some, elements, found]
          rfl

/-! ## Expressions at an element -/

namespace Expr

mutual

/-- The value of an expression at element `i` of the domain `k`, computed with numbers. -/
def sampleAt (c : Context β α) (functions : Registry α) (k : Domain) (i : Nat) : Expr β → Sample α
  | constant v => .everywhere (Precision.narrow v)
  | invalid _ => .missing
  | parameter name =>
    match c.parameter name with
    | some v => .everywhere (Precision.narrow v)
    | none => .missing
  | model name =>
    match c.lookup name with
    | .ok (some found) =>
      .ofOption ((c.surroundings.position? k i found.domain).bind found.data.get?)
    | _ => .missing
  | sum [] => .everywhere 0
  | sum (x :: xs) => (samplesAt c functions k i xs).foldl .add (sampleAt c functions k i x)
  | product xs => .productFrom (.everywhere 1) (samplesAt c functions k i xs)
  | ifThen cond t =>
    match sampleAt c functions k i cond with
    | .everywhere x => if Scalar.eq x 0 then .everywhere 0 else sampleAt c functions k i t
    | mask => mask.mul (sampleAt c functions k i t)
  | ifElse cond t e =>
    match sampleAt c functions k i cond with
    | .everywhere x => if Scalar.eq x 0 then sampleAt c functions k i e else sampleAt c functions k i t
    | .here x =>
      if Scalar.eq x 0 then (sampleAt c functions k i e).localized
      else (sampleAt c functions k i t).localized
    | .missing => .missing
  | call name args =>
    match functions.get? name with
    | some f => .apply f (samplesAt c functions k i args)
    | none => .missing

def samplesAt (c : Context β α) (functions : Registry α) (k : Domain) (i : Nat) :
    List (Expr β) → List (Sample α)
  | [] => []
  | x :: xs => sampleAt c functions k i x :: samplesAt c functions k i xs

end

/-- A tree that is no call of a reduction. -/
def Elementwise (functions : Registry α) (e : Expr β) : Prop :=
  ∀ name args r, e = call name args → functions.get? name ≠ some (.reduction r)

/-- A value with the numbers of a family of samples, where it has any. -/
structure Agrees (c : Context β α) (size : Domain → Nat) (v : Value α)
    (samples : Domain → Nat → Sample α) : Prop where
  sized : v.Fits size
  below : ∀ k i, v.sampleAt c.surroundings k i ≤ samples k i

/-- Values with the numbers of families of samples. -/
structure AgreesAll (c : Context β α) (size : Domain → Nat) (vs : List (Value α))
    (samples : Domain → Nat → List (Sample α)) : Prop where
  sized : ∀ v ∈ vs, v.Fits size
  below : ∀ k i, List.Forall₂ (· ≤ ·) (vs.map (·.sampleAt c.surroundings k i)) (samples k i)

section

variable {c : Context β α} {functions : Registry α} {size : Domain → Nat} {v w : Value α}
  {vs : List (Value α)} {samples others : Domain → Nat → Sample α}

omit [BaseScalar β] [Scalar α] [Precision β α] in
theorem agrees_invalid : Agrees c size .invalid samples :=
  ⟨fun _ _ same => (by cases same), fun _ _ => Sample.missing_le _⟩

omit [BaseScalar β] [Scalar α] [Precision β α] in
theorem agrees_scalar {x : α} (same : ∀ k i, samples k i = .everywhere x) :
    Agrees c size (.scalar x) samples :=
  ⟨fun _ _ same => (by cases same), fun k i => .inr (same k i).symm⟩

omit [BaseScalar β] [Scalar α] [Precision β α] in
theorem Agrees.eq_everywhere {x : α} (agrees : Agrees c size (.scalar x) samples) (k : Domain)
    (i : Nat) : samples k i = .everywhere x :=
  ((agrees.below k i).resolve_left fun lost => by cases lost).symm

omit [BaseScalar β] [Scalar α] [Precision β α] in
theorem Agrees.trans (agrees : Agrees c size v samples) (below : ∀ k i, samples k i ≤ others k i) :
    Agrees c size v others :=
  ⟨agrees.sized, fun k i => le_trans (agrees.below k i) (below k i)⟩

omit [BaseScalar β] [Scalar α] [Precision β α] in
theorem agreesAll_nil : AgreesAll c size ([] : List (Value α)) fun _ _ => [] :=
  ⟨fun _ member => (by cases member), fun _ _ => .nil⟩

omit [BaseScalar β] [Scalar α] [Precision β α] in
theorem AgreesAll.cons {more : Domain → Nat → List (Sample α)} (head : Agrees c size v samples)
    (tail : AgreesAll c size vs more) :
    AgreesAll c size (v :: vs) fun k i => samples k i :: more k i :=
  ⟨List.forall_mem_cons.mpr ⟨head.sized, tail.sized⟩, fun k i => .cons (head.below k i) (tail.below k i)⟩

omit [Precision β α] in
theorem Agrees.screen {e : Expr β} {found : Findings (Value α)}
    (agrees : Agrees c size found.result samples) :
    Agrees c size (Findings.screen e found).result samples := by
  unfold Findings.screen
  split
  · exact agrees
  · exact agrees_invalid

theorem AgreesAll.apply {samples : Domain → Nat → List (Sample α)}
    (agree : AgreesAll c size vs samples) (fits : c.Fits size) (context : String) (f : Function α)
    (reporting : Bool) (elementwise : ∀ r, f ≠ .reduction r) :
    Agrees c size (Findings.apply c context f vs reporting).result
      fun k i => .apply f (samples k i) := by
  obtain ⟨sized, below⟩ :=
    Findings.sampleAt_apply_le fits context reporting elementwise agree.sized
  exact ⟨sized, fun k i => le_trans (below k i) (Sample.apply_mono f (agree.below k i))⟩

end

section

variable {c : Context β α} {functions : Registry α} {size : Domain → Nat} (fits : c.Fits size)

omit [BaseScalar β] in
theorem agrees_model (fits : c.Fits size) (name : String) : Agrees c size (Findings.model c name).result
    fun k i => (model name : Expr β).sampleAt c functions k i := by
  unfold Findings.model
  cases answer : c.lookup name with
  | error cause => exact agrees_invalid
  | ok found =>
    cases found with
    | none => exact agrees_invalid
    | some found =>
      refine ⟨fun d data same => ?_, fun k i => .inr (by simp [sampleAt, answer, Value.sampleAt])⟩
      cases same
      exact fits.fields name found answer

omit [BaseScalar β] in
theorem agrees_parameter (name : String) : Agrees c size (Findings.parameter c name).result
    fun k i => (parameter name : Expr β).sampleAt c functions k i := by
  unfold Findings.parameter
  cases answer : c.parameter name with
  | none => exact agrees_invalid
  | some v => exact agrees_scalar fun k i => by simp [sampleAt, answer]

omit [BaseScalar β] [Scalar α] [Precision β α] in
theorem agrees_self (sized : v.Fits size) :
    Agrees c size v fun k i => v.sampleAt c.surroundings k i :=
  ⟨sized, fun _ _ => le_refl _⟩

omit [BaseScalar β] [Scalar α] [Precision β α] in
/-- Where a condition has a field of values, its expression has these values there. -/
theorem Agrees.sampleAt_field {d : Domain} {data : Field α}
    (agrees : Agrees c size (.field d data) samples) (k : Domain) (i : Nat) :
    (Value.field d data).sampleAt c.surroundings k i = .missing ∨
      ∃ x, (Value.field d data).sampleAt c.surroundings k i = .here x ∧ samples k i = .here x := by
  rcases Value.sampleAt_field c.surroundings k i d data with absent | ⟨x, present⟩
  · exact .inl absent
  · exact .inr ⟨x, present, ((agrees.below k i).resolve_left (by simp [present])).symm.trans present⟩

theorem agrees_ifThen (fits : c.Fits size) {cond t : Expr β}
    (mask : Agrees c size (cond.recompute c functions).result fun k i => cond.sampleAt c functions k i)
    (selected : Agrees c size (t.recompute c functions).result fun k i => t.sampleAt c functions k i) :
    Agrees c size ((ifThen cond t).recompute c functions).result
      fun k i => (ifThen cond t).sampleAt c functions k i := by
  refine Agrees.screen ?_
  rw [Findings.result_bind]
  generalize (cond.recompute c functions).result = m at mask
  cases m with
  | invalid => exact agrees_invalid
  | scalar x =>
    have same := mask.eq_everywhere
    dsimp only
    split
    · exact agrees_scalar fun k i => by simp [sampleAt, *]
    · exact selected.trans fun k i => .inr (by simp [sampleAt, *])
  | field d data =>
    have operands := (agreesAll_nil.cons selected).cons (agrees_self (c := c) mask.sized)
    have product := operands.apply fits "if" (.binary (· * ·)) false (Function.binary_ne _)
    refine product.trans fun k i => ?_
    rcases mask.sampleAt_field k i with absent | ⟨x, present, same⟩
    · rw [absent, Sample.apply_of_missing_mem _ List.mem_cons_self]
      exact Sample.missing_le _
    · rw [present, sampleAt, same]
      exact le_refl _

theorem agrees_ifElse (fits : c.Fits size) {cond t e : Expr β}
    (mask : Agrees c size (cond.recompute c functions).result fun k i => cond.sampleAt c functions k i)
    (whenTrue : Agrees c size (t.recompute c functions).result fun k i => t.sampleAt c functions k i)
    (whenFalse : Agrees c size (e.recompute c functions).result fun k i => e.sampleAt c functions k i) :
    Agrees c size ((ifElse cond t e).recompute c functions).result
      fun k i => (ifElse cond t e).sampleAt c functions k i := by
  refine Agrees.screen ?_
  rw [Findings.result_bind]
  generalize (cond.recompute c functions).result = m at mask
  cases m with
  | invalid => exact agrees_invalid
  | scalar x =>
    have same := mask.eq_everywhere
    dsimp only
    split
    · exact whenFalse.trans fun k i => .inr (by simp [sampleAt, *])
    · exact whenTrue.trans fun k i => .inr (by simp [sampleAt, *])
  | field d data =>
    have operands :=
      ((agreesAll_nil.cons whenFalse).cons whenTrue).cons (agrees_self (c := c) mask.sized)
    have selection :=
      operands.apply fits "ifelse" (.ternary Special.select) false (Function.ternary_ne _)
    refine selection.trans fun k i => ?_
    rcases mask.sampleAt_field k i with absent | ⟨x, present, same⟩
    · rw [absent, Sample.apply_of_missing_mem _ List.mem_cons_self]
      exact Sample.missing_le _
    · rw [present, sampleAt, same]
      exact Sample.apply_select_le x _ _

theorem agrees_call (fits : c.Fits size) {name : String} {args : List (Expr β)}
    (elementwise : Elementwise functions (call name args))
    (operands : AgreesAll c size (recomputeList c functions args).result
      fun k i => samplesAt c functions k i args) :
    Agrees c size ((call name args).recompute c functions).result
      fun k i => (call name args).sampleAt c functions k i := by
  refine Agrees.screen ?_
  cases found : functions.get? name with
  | none => exact agrees_invalid
  | some f =>
    dsimp only
    split
    · exact agrees_invalid
    · have notReduction : ∀ r, f ≠ .reduction r := fun r same =>
        elementwise name args r rfl (same ▸ found)
      refine (operands.apply fits name f true notReduction).trans fun k i => .inr ?_
      simp [sampleAt, found]

omit [BaseScalar β] in
/-- A factor that is not the number zero multiplies a product at every element. -/
theorem productFrom_mul_le {x : Expr β}
    (factor : Agrees c size v fun k i => x.sampleAt c functions k i)
    (nonzero : ¬v.isScalarZero = true) (total : Sample α) (xs : List (Sample α)) (k : Domain) (i : Nat) :
    .productFrom (total.mul (v.sampleAt c.surroundings k i)) xs ≤
      Sample.productFrom total (x.sampleAt c functions k i :: xs) := by
  rw [Sample.productFrom_cons]
  rcases factor.below k i with absent | same
  · rw [absent, Sample.mul, Sample.apply_of_missing_mem _ (by simp)]
    split
    · exact Sample.productFrom_missing_le _
    · exact Sample.productFrom_mono (Sample.missing_le _) _
  · have number : ¬(v.sampleAt c.surroundings k i).isZero = true := by
      intro zero
      cases v with
      | scalar z => exact nonzero zero
      | field d data =>
        rcases Value.sampleAt_field c.surroundings k i d data with absent | ⟨y, present⟩
        · simp [absent, Sample.isZero] at zero
        · simp [present, Sample.isZero] at zero
      | invalid => cases zero
    rw [← same, if_neg number]

mutual

theorem agrees_recompute (fits : c.Fits size) : ∀ e : Expr β,
    (∀ x ∈ e.subtrees, Elementwise functions x) →
      Agrees c size (e.recompute c functions).result fun k i => e.sampleAt c functions k i
  | constant _, _ => agrees_scalar fun _ _ => rfl
  | invalid _, _ => agrees_invalid
  | parameter n, _ => (agrees_parameter n).screen
  | model n, _ => (agrees_model fits n).screen
  | sum [], _ => Agrees.screen (agrees_scalar fun _ _ => rfl)
  | sum (x :: xs), within => by
    obtain ⟨-, below⟩ := List.forall_mem_cons.mp within
    obtain ⟨head, tail⟩ := List.forall_mem_append.mp below
    exact Agrees.screen (agrees_recomputeSum fits xs tail (agrees_recompute fits x head))
  | product xs, within => by
    obtain ⟨-, below⟩ := List.forall_mem_cons.mp within
    exact Agrees.screen (agrees_recomputeProduct fits xs below (agrees_scalar fun _ _ => rfl))
  | ifThen cond t, within => by
    obtain ⟨-, below⟩ := List.forall_mem_cons.mp within
    obtain ⟨condition, body⟩ := List.forall_mem_append.mp below
    exact agrees_ifThen fits (agrees_recompute fits cond condition) (agrees_recompute fits t body)
  | ifElse cond t e, within => by
    obtain ⟨-, below⟩ := List.forall_mem_cons.mp within
    obtain ⟨both, otherwise⟩ := List.forall_mem_append.mp below
    obtain ⟨condition, body⟩ := List.forall_mem_append.mp both
    exact agrees_ifElse fits (agrees_recompute fits cond condition) (agrees_recompute fits t body)
      (agrees_recompute fits e otherwise)
  | call name args, within => by
    obtain ⟨here, below⟩ := List.forall_mem_cons.mp within
    exact agrees_call fits here (agreesAll_recomputeList fits args below)

theorem agreesAll_recomputeList (fits : c.Fits size) : ∀ xs : List (Expr β),
    (∀ x ∈ subtreesOfList xs, Elementwise functions x) →
      AgreesAll c size (recomputeList c functions xs).result fun k i => samplesAt c functions k i xs
  | [], _ => agreesAll_nil
  | x :: xs, within => by
    obtain ⟨head, tail⟩ := List.forall_mem_append.mp within
    exact (agreesAll_recomputeList fits xs tail).cons (agrees_recompute fits x head)

theorem agrees_recomputeSum (fits : c.Fits size) : ∀ (xs : List (Expr β)) {total : Value α}
    {samples : Domain → Nat → Sample α}, (∀ x ∈ subtreesOfList xs, Elementwise functions x) →
      Agrees c size total samples → Agrees c size (recomputeSum c functions total xs).result
        fun k i => (samplesAt c functions k i xs).foldl .add (samples k i)
  | [], _, _, _, agrees => agrees
  | x :: xs, total, samples, within, agrees => by
    obtain ⟨head, tail⟩ := List.forall_mem_append.mp within
    have operands := (agreesAll_nil.cons (agrees_recompute fits x head)).cons agrees
    have total := operands.apply fits "+" (.binary (· + ·)) false (Function.binary_ne _)
    exact agrees_recomputeSum fits xs tail total

theorem agrees_recomputeProduct (fits : c.Fits size) : ∀ (xs : List (Expr β)) {total : Value α}
    {samples : Domain → Nat → Sample α}, (∀ x ∈ subtreesOfList xs, Elementwise functions x) →
      Agrees c size total samples → Agrees c size (recomputeProduct c functions total xs).result
        fun k i => .productFrom (samples k i) (samplesAt c functions k i xs)
  | [], _, _, _, agrees => agrees
  | x :: xs, total, samples, within, agrees => by
    obtain ⟨head, tail⟩ := List.forall_mem_append.mp within
    have factor := agrees_recompute fits x head
    rw [recomputeProduct, Findings.result_bind]
    generalize (x.recompute c functions).result = v at factor
    split
    next zero =>
      cases v with
      | scalar z =>
        refine agrees_scalar fun k i => ?_
        rw [samplesAt, Sample.productFrom_cons, factor.eq_everywhere k i, if_pos (by exact zero)]
      | _ => cases zero
    next nonzero =>
      -- the factor's own samples: those of its expression may say zero where a fault left none
      have operands := (agreesAll_nil.cons (agrees_self (c := c) factor.sized)).cons agrees
      have product := operands.apply fits "*" (.binary (· * ·)) false (Function.binary_ne _)
      exact (agrees_recomputeProduct fits xs tail product).trans fun k i =>
        productFrom_mul_le factor nonzero _ _ k i

end

end

end Expr

end FiniteVolume
