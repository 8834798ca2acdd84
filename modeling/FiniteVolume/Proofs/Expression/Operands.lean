import FiniteVolume.Proofs.Expression.Recomputation
import FiniteVolume.Proofs.Field.Elements
import Mathlib.Data.List.Forall2

/-!
How operands are brought to one domain, and how a function applies to them.

Operands combine if one of their domains is one that all others may be read on
(`Value.operands_eq_fields_iff`). A function applies to the elements of the fields one position at a
time (`Value.applyTo_fields`), so that it may as well be applied after gathering
(`Value.applyTo_gather`).
-/
namespace FiniteVolume

variable {α : Type}

/-! ## Common domains -/

/-- A domain of some operands on which all of them may be read. Numbers have none. -/
def Common (d : Domain) (domains : List (Option Domain)) : Prop :=
  some d ∈ domains ∧ ∀ a, some a ∈ domains → a.widensTo d = true

theorem widensTo_self (d : Domain) : d.widensTo d = true := by cases d <;> rfl

theorem eq_of_widensTo {a b : Domain} (widens : a.widensTo b = true) (notEdge : a ≠ .edge) :
    a = b := by
  cases a <;> cases b <;> simp_all [Domain.widensTo]

theorem common_cons_cons (context : String) {d : Domain} {first next : Option Domain}
    {others : List (Option Domain)} : Common d (first :: next :: others) ↔
      ∃ joint, commonDomain context first next = .ok joint ∧ Common d (joint :: others) := by
  cases first with
  | none => simp [commonDomain, Common]
  | some a =>
    cases next with
    | none => simp [commonDomain, Common]
    | some b =>
      cases a <;> cases b <;> cases d <;>
        simp [commonDomain, Common, Domain.widensTo, Domain.isElementEdge]

theorem foldlM_eq_some_iff {context : String} {d : Domain} :
    ∀ (first : Option Domain) {domains : List (Option Domain)},
      domains.foldlM (commonDomain context) first = .ok (some d) ↔ Common d (first :: domains)
  | first, [] => by
    cases first with
    | none => simp [Common, pure, Except.pure]
    | some a =>
      cases a <;> cases d <;> simp [Common, pure, Except.pure, Domain.widensTo, Domain.isElementEdge]
  | first, next :: others => by
    rw [List.foldlM_cons, common_cons_cons context]
    cases commonDomain context first next with
    | error e => simp [bind, Except.bind]
    | ok joint => simpa [bind, Except.bind] using foldlM_eq_some_iff joint

theorem foldlM_eq_none {context : String} :
    ∀ {first : Option Domain} {domains : List (Option Domain)},
      domains.foldlM (commonDomain context) first = .ok none →
        first = none ∧ ∀ a ∈ domains, a = none
  | first, [], folded => ⟨by cases folded; rfl, fun _ member => by cases member⟩
  | first, next :: others, folded => by
    rw [List.foldlM_cons] at folded
    cases joined : commonDomain context first next with
    | error e => simp [joined, bind, Except.bind] at folded
    | ok joint =>
      rw [joined] at folded
      obtain ⟨rfl, none⟩ := foldlM_eq_none folded
      have both : first = .none ∧ next = .none := by
        cases first <;> cases next <;> simp [commonDomain] at joined ⊢
        split at joined
        · cases joined
        · split at joined <;> cases joined
      exact ⟨both.1, List.forall_mem_cons.mpr ⟨both.2, none⟩⟩

theorem mapM_eq_ok_iff {γ δ ε : Type} {f : γ → Except ε δ} : ∀ {xs : List γ} {ys : List δ},
    xs.mapM f = .ok ys ↔ List.Forall₂ (fun x y => f x = .ok y) xs ys
  | [], ys => by cases ys <;> simp [pure, Except.pure]
  | x :: xs, ys => by
    rw [List.mapM_cons]
    cases ys with
    | nil =>
      cases f x <;> cases xs.mapM f <;> simp [bind, Except.bind, pure, Except.pure]
    | cons y ys =>
      rw [List.forall₂_cons, ← mapM_eq_ok_iff]
      cases f x <;> cases xs.mapM f <;> simp [bind, Except.bind, pure, Except.pure]

theorem forall₂_trans {γ δ ε : Type} {R : γ → δ → Prop} {S : δ → ε → Prop} {T : γ → ε → Prop}
    (step : ∀ {x y z}, R x y → S y z → T x z) {xs : List γ} {ys : List δ} {zs : List ε}
    (left : List.Forall₂ R xs ys) (right : List.Forall₂ S ys zs) : List.Forall₂ T xs zs := by
  induction left generalizing zs with
  | nil =>
    cases right
    exact .nil
  | cons head _ ih =>
    cases right with
    | cons head' tail => exact .cons (step head head') (ih tail)

theorem exists_of_forall₂ {γ δ : Type} {R : γ → δ → Prop} {xs : List γ} {ys : List δ}
    (related : List.Forall₂ R xs ys) {x : γ} (member : x ∈ xs) : ∃ y ∈ ys, R x y := by
  induction related with
  | nil => cases member
  | cons head _ ih =>
    rcases List.mem_cons.mp member with rfl | below
    · exact ⟨_, List.mem_cons_self, head⟩
    · obtain ⟨y, inside, holds⟩ := ih below
      exact ⟨y, List.mem_cons_of_mem _ inside, holds⟩

theorem mapM_eq_some_iff {γ δ : Type} {f : γ → Option δ} : ∀ {xs : List γ} {ys : List δ},
    xs.mapM f = some ys ↔ List.Forall₂ (fun x y => f x = some y) xs ys
  | [], ys => by cases ys <;> simp
  | x :: xs, ys => by
    rw [List.mapM_cons]
    cases ys with
    | nil => cases f x <;> cases xs.mapM f <;> simp
    | cons y ys =>
      rw [List.forall₂_cons, ← mapM_eq_some_iff]
      cases f x <;> cases xs.mapM f <;> simp

namespace Value

variable [Scalar α] {s : Surroundings} {context : String}

/-! ## Operands -/

def Lifts (s : Surroundings) (d : Domain) (size : Nat) (v : Value α) (x : Field α) : Prop :=
  v.lift? s.chunking (s.edgeMap d) d size = some x ∧ x.size = size

theorem operand_eq_ok_iff {d : Domain} {size : Nat} {v : Value α} {x : Field α} :
    operand s context d size v = .ok x ↔ Lifts s d size v x := by
  unfold operand Lifts
  cases v.lift? s.chunking (s.edgeMap d) d size with
  | none => simp
  | some y =>
    dsimp only
    split <;> simp <;> grind

/-- The number of elements that operands must have on a common domain. -/
def extent (s : Surroundings) (d : Domain) (args : List (Value α)) : Nat :=
  commonSize d (if d.isElementEdge then s.edgeMap d else #[]) args

omit [Scalar α] in
/-- A field among the operands on their common domain gives the number of elements. -/
theorem extent_eq {d : Domain} {n : Nat} : ∀ {args : List (Value α)}, some d ∈ args.map domain? →
    (∀ v ∈ args, ∀ data, v = field d data → data.size = n) → extent s d args = n
  | [], reached, _ => by cases reached
  | v :: args, reached, sized => by
    obtain ⟨here, below⟩ := List.forall_mem_cons.mp sized
    have rest : some d ∈ args.map domain? → extent s d args = n := fun later =>
      extent_eq later below
    unfold extent commonSize at rest ⊢
    rw [List.findSome?_cons]
    cases v with
    | scalar x => exact rest (by simpa [domain?] using reached)
    | invalid => exact rest (by simpa [domain?] using reached)
    | field source data =>
      dsimp only
      split
      next found matched =>
        split at matched
        · subst source
          rw [← Option.some.inj matched]
          exact here data rfl
        · cases matched
      next unmatched =>
        have other : source ≠ d := fun same => by simp [same] at unmatched
        exact rest (by simpa [domain?, other.symm] using reached)

theorem operands_eq_fields_iff {args : List (Value α)} {d : Domain} {xs : List (Field α)} :
    operands s context args = .ok (.fields d xs) ↔
      Common d (args.map domain?) ∧ List.Forall₂ (Lifts s d (extent s d args)) args xs := by
  have folded : args.foldlM (fun d arg => commonDomain context d arg.domain?) none =
      (args.map domain?).foldlM (commonDomain context) none := by rw [List.foldlM_map]
  have common : (args.map domain?).foldlM (commonDomain context) none = .ok (some d) ↔
      Common d (args.map domain?) := by
    rw [foldlM_eq_some_iff]
    simp [Common]
  unfold operands
  rw [folded, ← common]
  cases (args.map domain?).foldlM (commonDomain context) none with
  | error e => simp [bind, Except.bind]
  | ok joint =>
    cases joint with
    | none => simp [bind, Except.bind, pure, Except.pure]
    | some d' =>
      -- With the common domain known, the operands are brought to it one by one.
      have lifted : ∀ ys, args.mapM (operand s context d' (extent s d' args)) = .ok ys ↔
          List.Forall₂ (Lifts s d' (extent s d' args)) args ys := fun ys => by
        simp only [mapM_eq_ok_iff, operand_eq_ok_iff]
      change (do
        let fields ← args.mapM (operand s context d' (extent s d' args))
        return Operands.fields d' fields) = _ ↔ _
      cases mapped : args.mapM (operand s context d' (extent s d' args)) with
      | error e =>
        simp only [bind, Except.bind, reduceCtorEq, Except.ok.injEq, Option.some.injEq, false_iff, not_and]
        rintro rfl all
        exact absurd ((lifted xs).mpr all) (by simp [mapped])
      | ok ys =>
        simp only [bind, Except.bind, pure, Except.pure, Except.ok.injEq, Operands.fields.injEq,
          Option.some.injEq]
        refine and_congr_right fun same => ?_
        subst same
        rw [← lifted, mapped, Except.ok.injEq]

theorem size_of_lifts {d : Domain} {n : Nat} {args : List (Value α)} {xs : List (Field α)}
    (lifts : List.Forall₂ (Lifts s d n) args xs) : ∀ x ∈ xs, x.size = n := by
  induction lifts with
  | nil => exact fun _ member => by cases member
  | cons head _ ih => exact List.forall_mem_cons.mpr ⟨head.2, ih⟩

theorem valid_of_operands {d : Domain} {args : List (Value α)} {xs : List (Field α)}
    (combined : operands s context args = .ok (.fields d xs)) : ∀ v ∈ args, v.isInvalid = false := by
  intro v member
  obtain ⟨x, -, lifted, -⟩ := exists_of_forall₂ (operands_eq_fields_iff.mp combined).2 member
  cases v with
  | invalid => cases lifted
  | _ => rfl

/-- Numbers and fields on one domain, all of one size, are operands as they are. -/
theorem operands_of_lifts {k : Domain} {m : Nat} {args : List (Value α)} {xs : List (Field α)}
    (reached : some k ∈ args.map domain?) (only : ∀ v ∈ args, ∀ a, v.domain? = some a → a = k)
    (lifts : List.Forall₂ (Lifts s k m) args xs) :
    operands s context args = .ok (.fields k xs) := by
  have sized : ∀ v ∈ args, ∀ data, v = field k data → data.size = m := fun v member data same => by
    obtain ⟨x, -, lifted, size⟩ := exists_of_forall₂ lifts member
    subst same
    simp only [lift?, if_pos, Option.some.injEq] at lifted
    rw [lifted, size]
  refine operands_eq_fields_iff.mpr ⟨⟨reached, fun a member => ?_⟩, extent_eq reached sized ▸ lifts⟩
  obtain ⟨v, inside, domain⟩ := List.mem_map.mp member
  rw [only v inside a domain]
  exact widensTo_self k

theorem eq_scalars_of_operands {args : List (Value α)} {xs : List α}
    (valid : ∀ v ∈ args, v.isInvalid = false)
    (combined : operands s context args = .ok (.scalars xs)) : args = xs.map scalar := by
  have folded : args.foldlM (fun d arg => commonDomain context d arg.domain?) none =
      (args.map domain?).foldlM (commonDomain context) none := by rw [List.foldlM_map]
  unfold operands at combined
  rw [folded] at combined
  cases joined : (args.map domain?).foldlM (commonDomain context) none with
  | error e =>
    rw [joined] at combined
    cases combined
  | ok joint =>
    rw [joined] at combined
    cases joint with
    | some d =>
      simp only [bind, Except.bind] at combined
      split at combined <;> cases combined
    | none =>
      cases combined
      have numbers := (foldlM_eq_none joined).2
      clear joined folded
      induction args with
      | nil => rfl
      | cons v args ih =>
        obtain ⟨here, below⟩ := List.forall_mem_cons.mp valid
        rw [List.map_cons, List.forall_mem_cons] at numbers
        obtain ⟨number, others⟩ := numbers
        cases v with
        | scalar x => simpa using ih below others
        | field d data => cases number
        | invalid => cases here

/-! ## Application -/

omit [Scalar α] in
/-- What an elementwise function gives for numbers, as many as it takes. -/
def onNumbers? : Function α → List α → Option α
  | .unary f, [x] => some (f x)
  | .binary f, [x, y] => some (f x y)
  | .ternary f, [x, y, z] => some (f x y z)
  | _, _ => none

theorem applyTo_scalars {c : Chunking} {f : Function α} {xs : List α} {v : Value α}
    (applied : applyTo c context f (.scalars xs) = .ok v) :
    ∃ x, onNumbers? f xs = some x ∧ v = scalar x := by
  unfold applyTo at applied
  split at applied <;> simp only [Operands.scalars.injEq, reduceCtorEq] at * <;> grind [onNumbers?]

theorem applyTo_fields_cases {c : Chunking} {f : Function α} {d : Domain} {xs : List (Field α)}
    {n : Nat} {v : Value α} (sizes : ∀ x ∈ xs, x.size = n)
    (applied : applyTo c context f (.fields d xs) = .ok v) :
    (∃ g x, f = .unary g ∧ xs = [x] ∧ v = field d (x.map c g)) ∨
    (∃ g x y z, f = .binary g ∧ xs = [x, y] ∧ x.zipWith c g y = .ok z ∧ v = field d z) ∨
    (∃ g x y z, f = .ternary g ∧ xs = [x, y, z] ∧ v = field d (zipWith3 c g x y z)) := by
  unfold applyTo at applied
  split at applied <;> simp only [Operands.fields.injEq, reduceCtorEq] at *
  · obtain ⟨rfl, rfl⟩ := ‹_ ∧ _›
    exact .inl ⟨_, _, rfl, rfl, (Except.ok.inj applied).symm⟩
  next g _ =>
    obtain ⟨rfl, rfl⟩ := ‹_ ∧ _›
    simp only [List.forall_mem_cons] at sizes
    obtain ⟨z, zipped⟩ := Field.zipWith_of_size_eq c g (sizes.1.trans sizes.2.1.symm)
    rw [zipped] at applied
    exact .inr (.inl ⟨_, _, _, _, rfl, rfl, zipped, (Except.ok.inj applied).symm⟩)
  · obtain ⟨rfl, rfl⟩ := ‹_ ∧ _›
    exact .inr (.inr ⟨_, _, _, _, rfl, rfl, (Except.ok.inj applied).symm⟩)

theorem applyTo_fields {c : Chunking} {f : Function α} {d : Domain} {xs : List (Field α)} {n : Nat}
    {v : Value α} (sizes : ∀ x ∈ xs, x.size = n)
    (applied : applyTo c context f (.fields d xs) = .ok v) : ∃ z : Field α, v = field d z ∧
      z.size = n ∧ ∀ i, z.get? i = (xs.mapM (Field.get? · i)).bind (onNumbers? f) := by
  rcases applyTo_fields_cases sizes applied with ⟨g, x, rfl, rfl, rfl⟩ | ⟨g, x, y, z, rfl, rfl, zipped, rfl⟩ |
    ⟨g, x, y, z, rfl, rfl, rfl⟩
  · refine ⟨_, rfl, by simpa using sizes, fun i => ?_⟩
    rw [Field.get?_map]
    cases found : x.get? i <;> simp [found, onNumbers?]
  · simp only [List.forall_mem_cons] at sizes
    refine ⟨z, rfl, (Field.size_zipWith zipped).1.trans sizes.1, fun i => ?_⟩
    rw [Field.get?_zipWith zipped]
    cases found : x.get? i <;> cases found' : y.get? i <;> simp [found, found', onNumbers?]
  · simp only [List.forall_mem_cons] at sizes
    obtain ⟨ofX, ofY, ofZ, -⟩ := sizes
    have xy := ofX.trans ofY.symm
    have xz := ofX.trans ofZ.symm
    refine ⟨_, rfl, (size_zipWith3 c g xy xz).trans ofX, fun i => ?_⟩
    rw [get?_zipWith3 c g xy xz]
    cases found : x.get? i <;> cases found' : y.get? i <;> cases found'' : z.get? i <;>
      simp [found, found', found'', onNumbers?]

/-- Gathering before or after a function is applied gives the same field. -/
theorem applyTo_gather {c : Chunking} {f : Function α} {d : Domain} {xs : List (Field α)} {n : Nat}
    {v : Value α} {index : Array Nat} (sizes : ∀ x ∈ xs, x.size = n) (inside : ∀ j ∈ index, j < n)
    (applied : applyTo c context f (.fields d xs) = .ok v) :
    ∃ z : Field α, v = field d z ∧ ∀ d', applyTo c context f
      (.fields d' (xs.map fun x => x.gather c index)) = .ok (field d' (z.gather c index)) := by
  rcases applyTo_fields_cases sizes applied with ⟨g, x, rfl, rfl, rfl⟩ | ⟨g, x, y, z, rfl, rfl, zipped, rfl⟩ |
    ⟨g, x, y, z, rfl, rfl, rfl⟩ <;>
    simp only [List.forall_mem_cons] at sizes
  · obtain ⟨rfl, -⟩ := sizes
    refine ⟨_, rfl, fun d' => ?_⟩
    rw [Field.gather_map c g x inside]
    rfl
  · obtain ⟨rfl, -⟩ := sizes
    refine ⟨z, rfl, fun d' => ?_⟩
    simp only [List.map_cons, List.map_nil, applyTo, Field.zipWith_gather c zipped inside]
  · obtain ⟨rfl, ofY, ofZ, -⟩ := sizes
    refine ⟨_, rfl, fun d' => ?_⟩
    rw [← zipWith3_gather c g ofY.symm ofZ.symm inside]
    rfl

end Value

/-! ## Functions of values -/

namespace Function

theorem binary_ne (f : α → α → α) (r : Reduction) : binary f ≠ reduction r := by
  intro same
  cases same

theorem ternary_ne (f : α → α → α → α) (r : Reduction) : ternary f ≠ reduction r := by
  intro same
  cases same

end Function

namespace Findings

variable {β : Type} [BaseScalar β] [Scalar α] [Precision β α]

theorem apply_eq (c : Context β α) (context : String) {f : Function α} (args : List (Value α))
    (reporting : Bool) (elementwise : ∀ r, f ≠ .reduction r) : apply c context f args reporting =
      if args.any (·.isInvalid) then
        if reporting then fail (.invalidArgument context) else return .invalid
      else ofExcept (Value.operands c.surroundings context args >>=
        Value.applyTo c.surroundings.chunking context f) := by
  cases f with
  | reduction r => exact absurd rfl (elementwise r)
  | _ => rfl

/-- A function that is no reduction gives an invalid value, or applies to operands on one domain. -/
theorem result_apply (c : Context β α) (context : String) {f : Function α} (args : List (Value α))
    (reporting : Bool) (elementwise : ∀ r, f ≠ .reduction r) :
    (apply c context f args reporting).result = .invalid ∨
      (∀ v ∈ args, v.isInvalid = false) ∧ ∃ operands,
        Value.operands c.surroundings context args = .ok operands ∧
        Value.applyTo c.surroundings.chunking context f operands =
          .ok (apply c context f args reporting).result := by
  rw [apply_eq c context args reporting elementwise]
  split
  · split <;> exact .inl rfl
  next valid =>
    cases Value.operands c.surroundings context args with
    | error e => exact .inl rfl
    | ok operands =>
      cases applied : Value.applyTo c.surroundings.chunking context f operands with
      | error e => exact .inl (by simp [bind, Except.bind, applied, ofExcept, fail])
      | ok v =>
        refine .inr ⟨by simpa using valid, operands, rfl, ?_⟩
        simp [bind, Except.bind, applied, ofExcept]

theorem result_apply_of_fields {c : Context β α} {context : String} {f : Function α}
    {args : List (Value α)} {d : Domain} {xs : List (Field α)} {v : Value α} (reporting : Bool)
    (elementwise : ∀ r, f ≠ .reduction r)
    (combined : Value.operands c.surroundings context args = .ok (.fields d xs))
    (applied : Value.applyTo c.surroundings.chunking context f (.fields d xs) = .ok v) :
    (apply c context f args reporting).result = v := by
  have valid := Value.valid_of_operands combined
  rw [apply_eq c context args reporting elementwise, if_neg (by simpa using valid), combined]
  simp [bind, Except.bind, applied, ofExcept]

end Findings

end FiniteVolume
