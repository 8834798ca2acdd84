import FiniteVolume.Proofs.Expression.Sessions

/-!
What an evaluation can repeat from memory.

A relation between sessions that survives new faults and the evaluation of single trees survives every
evaluation (`Expr.Stable.eval`). So memory and faults only grow, and a session may be ahead by values
that the other session can put together from its memory (`Expr.stable_ahead`). Sums and products can be
put together from what remains of their evaluation (`Expr.recallable_evalSum`,
`Expr.recallable_evalProduct`).
-/
namespace FiniteVolume

variable {β α σ : Type}

namespace Expr

open Eval

mutual

theorem sizeOf_le_of_mem_subtrees : ∀ e x : Expr β, x ∈ e.subtrees → sizeOf x ≤ sizeOf e
  | constant _, _, member | invalid _, _, member => by cases member
  | parameter _, _, member | model _, _, member => by rw [List.mem_singleton.mp member]
  | sum xs, x, member | product xs, x, member | call _ xs, x, member => by
    have below := sizeOf_lt_of_mem_subtreesOfList xs x
    simp only [subtrees, List.mem_cons] at member
    grind [sum.sizeOf_spec, product.sizeOf_spec, call.sizeOf_spec]
  | ifThen c t, x, member => by
    have condition := sizeOf_le_of_mem_subtrees c x
    have branch := sizeOf_le_of_mem_subtrees t x
    simp only [subtrees, List.mem_cons, List.mem_append] at member
    grind [ifThen.sizeOf_spec]
  | ifElse c t e, x, member => by
    have condition := sizeOf_le_of_mem_subtrees c x
    have branch := sizeOf_le_of_mem_subtrees t x
    have otherwise := sizeOf_le_of_mem_subtrees e x
    simp only [subtrees, List.mem_cons, List.mem_append] at member
    grind [ifElse.sizeOf_spec]

theorem sizeOf_lt_of_mem_subtreesOfList : ∀ (xs : List (Expr β)) (x : Expr β),
    x ∈ subtreesOfList xs → sizeOf x < sizeOf xs
  | [], _, member => by cases member
  | y :: xs, x, member => by
    have here := sizeOf_le_of_mem_subtrees y x
    have below := sizeOf_lt_of_mem_subtreesOfList xs x
    rcases List.mem_append.mp member with first | later <;> grind [List.cons.sizeOf_spec]

end

variable [BaseScalar β] [Scalar α] [Precision β α] {s : Surroundings} {functions : Registry α}

/-- All expressions but literals and fragments without meaning are remembered. -/
theorem eval_cases (s : Surroundings) (functions : Registry α) (e : Expr β) :
    (∃ v, e = constant v) ∨ (∃ text, e = invalid text) ∨
      ∃ body, eval s functions e = (Eval.remember e body : Eval β α (Value α)) := by
  cases e with
  | constant v => exact .inl ⟨v, rfl⟩
  | invalid text => exact .inr (.inl ⟨text, rfl⟩)
  | sum xs => cases xs <;> exact .inr (.inr ⟨_, by rw [eval]⟩)
  | _ => exact .inr (.inr ⟨_, by rw [eval]⟩)

/-- A relation between sessions that survives new faults, and the evaluation of one of the trees if it
survives the calculation of its value. -/
structure Stable (s : Surroundings) (functions : Registry α) (trees : List (Expr β))
    (R : Session α → Session α → Prop) : Prop where
  recording : Recording R
  remember : ∀ e ∈ trees, ∀ body, eval s functions e = Eval.remember e body → Keeps R body →
    Keeps R (eval s functions e)

variable {trees : List (Expr β)} {R : Session α → Session α → Prop}

mutual

theorem Stable.eval (stable : Stable s functions trees R) : ∀ e : Expr β,
    (∀ x ∈ e.subtrees, x ∈ trees) → Keeps R (Expr.eval s functions e)
  | constant _, _ => keeps_pure _
  | invalid _, _ => keeps_fail stable.recording _
  | parameter n, within =>
    stable.remember _ (within _ List.mem_cons_self) _ rfl (keeps_parameter stable.recording n)
  | model n, within =>
    stable.remember _ (within _ List.mem_cons_self) _ rfl (keeps_model stable.recording n)
  | sum [], within => stable.remember _ (within _ List.mem_cons_self) _ rfl (keeps_pure _)
  | sum (x :: xs), within => by
    obtain ⟨here, below⟩ := List.forall_mem_cons.mp within
    obtain ⟨head, tail⟩ := List.forall_mem_append.mp below
    exact stable.remember _ here _ rfl
      ((stable.eval x head).bind fun total => stable.evalSum total xs tail)
  | product xs, within => by
    obtain ⟨here, below⟩ := List.forall_mem_cons.mp within
    exact stable.remember _ here _ rfl (stable.evalProduct _ xs below)
  | ifThen c t, within => by
    obtain ⟨here, below⟩ := List.forall_mem_cons.mp within
    obtain ⟨condition, body⟩ := List.forall_mem_append.mp below
    refine stable.remember _ here _ rfl ((stable.eval c condition).bind fun v => ?_)
    have selected := stable.eval t body
    split
    · exact keeps_pure _
    · split
      · exact keeps_pure _
      · exact selected
    · exact selected.bind fun v => keeps_apply stable.recording _ _ _ _ _
  | ifElse c t e, within => by
    obtain ⟨here, below⟩ := List.forall_mem_cons.mp within
    obtain ⟨both, otherwise⟩ := List.forall_mem_append.mp below
    obtain ⟨condition, body⟩ := List.forall_mem_append.mp both
    refine stable.remember _ here _ rfl ((stable.eval c condition).bind fun v => ?_)
    have whenTrue := stable.eval t body
    have whenFalse := stable.eval e otherwise
    split
    · exact keeps_pure _
    · split
      · exact whenFalse
      · exact whenTrue
    · exact whenTrue.bind fun _ => whenFalse.bind fun _ => keeps_apply stable.recording _ _ _ _ _
  | call name args, within => by
    obtain ⟨here, below⟩ := List.forall_mem_cons.mp within
    refine stable.remember _ here _ (by rw [Expr.eval]) ?_
    split
    · exact keeps_fail stable.recording _
    · split
      · exact keeps_fail stable.recording _
      · exact (stable.evalList args below).bind fun vs => keeps_apply stable.recording _ _ _ _ _

theorem Stable.evalList (stable : Stable s functions trees R) : ∀ xs : List (Expr β),
    (∀ x ∈ subtreesOfList xs, x ∈ trees) → Keeps R (Expr.evalList s functions xs)
  | [], _ => keeps_pure _
  | x :: xs, within => by
    obtain ⟨head, tail⟩ := List.forall_mem_append.mp within
    exact (stable.eval x head).bind fun _ => (stable.evalList xs tail).bind fun _ => keeps_pure _

theorem Stable.evalSum (stable : Stable s functions trees R) (total : Value α) : ∀ xs : List (Expr β),
    (∀ x ∈ subtreesOfList xs, x ∈ trees) → Keeps R (Expr.evalSum s functions total xs)
  | [], _ => keeps_pure _
  | x :: xs, within => by
    obtain ⟨head, tail⟩ := List.forall_mem_append.mp within
    exact (stable.eval x head).bind fun _ =>
      (keeps_apply stable.recording _ _ _ _ _).bind fun total => stable.evalSum total xs tail

theorem Stable.evalProduct (stable : Stable s functions trees R) (total : Value α) :
    ∀ xs : List (Expr β),
    (∀ x ∈ subtreesOfList xs, x ∈ trees) → Keeps R (Expr.evalProduct s functions total xs)
  | [], _ => keeps_pure _
  | x :: xs, within => by
    obtain ⟨head, tail⟩ := List.forall_mem_append.mp within
    refine (stable.eval x head).bind fun v => ?_
    split
    · exact keeps_pure _
    · exact (keeps_apply stable.recording _ _ _ _ _).bind fun total =>
        stable.evalProduct total xs tail

end

/-! ## Values under one key -/

/-- A property of what is remembered under the key is kept if the trees of the key have fixed values
with the property. -/
theorem stable_holds {key : String} {P : Value α → Prop}
    (known : ∀ e ∈ trees, e.key = key → ∃ x, Expr.eval s functions e = Eval.remember e (pure x) ∧ P x) :
    Stable s functions trees (Holds key P) := by
  constructor
  · rintro _ t e ⟨rfl, holds⟩
    exact ⟨rfl, holds⟩
  · rintro e member body unfolded keeps _ t ⟨rfl, holds⟩
    cases looked : t.remembered.lookup e.key with
    | some v =>
      rw [unfolded, run_remember_of_hit e body looked]
      exact .done ⟨rfl, rfl, holds⟩
    | none =>
      by_cases here : e.key = key
      · obtain ⟨x, fixed, property⟩ := known e member here
        rw [fixed, run_remember_of_miss e _ looked]
        refine .done ⟨rfl, rfl, fun w hit => ?_⟩
        rcases lookup_keep hit with ⟨-, rfl⟩ | before
        · exact property
        · exact holds w before
      · rw [unfolded, run_remember_of_miss e body looked]
        refine (keeps t t ⟨rfl, holds⟩).bind ?_
        rintro _ ⟨v, u⟩ ⟨rfl, rfl, after⟩
        refine .done ⟨rfl, rfl, fun w hit => ?_⟩
        rcases lookup_keep hit with ⟨same, -⟩ | before
        · exact absurd same.symm here
        · exact after w before

/-- Below a tree whose subtrees have keys of their own, its key does not occur. -/
theorem DistinctKeys.stable_below {a : Expr β} {xs : List (Expr β)} (distinct : a.DistinctKeys)
    (subtrees : a.subtrees = a :: subtreesOfList xs) (larger : sizeOf xs ≤ sizeOf a) :
    Stable s functions (subtreesOfList xs) (Holds (α := α) a.key fun _ => False) := by
  refine stable_holds fun x member same => ?_
  have inside : x ∈ a.subtrees := subtrees ▸ List.mem_cons_of_mem _ member
  have smaller := sizeOf_lt_of_mem_subtreesOfList xs x member
  rw [distinct x inside a (subtrees ▸ List.mem_cons_self) same] at smaller
  exact absurd larger (Nat.not_le_of_lt smaller)

/-! ## Sessions that are ahead -/

/-- The session may put the value together again: wherever its memory has grown to, the value of the
tree is calculated without a question and remembered. -/
def Recalls (s : Surroundings) (functions : Registry α) (base : Session α) (e : Expr β) (v : Value α) :
    Prop :=
  ∀ t, base.Within t → t.remembered.lookup e.key = none →
    (Expr.eval s functions e).run t = .done (v, { t with remembered := (e.key, v) :: t.remembered })

variable {base : Session α} {extra : String → Value α → Prop}

/-- Sessions stay as far ahead of one another as there are values to recall. -/
theorem stable_ahead (recalls : ∀ e ∈ trees, ∀ v, extra e.key v → Recalls s functions base e v) :
    Stable s functions trees (Session.Ahead base extra) := by
  refine ⟨fun t t' e ahead => ahead.fault e, fun e member body unfolded keeps t t' ahead => ?_⟩
  have new (miss : t.remembered.lookup e.key = none) : base.remembered.lookup e.key = none := by
    cases hit : base.remembered.lookup e.key with
    | none => rfl
    | some v => cases miss.symm.trans (ahead.base.remembered _ _ hit)
  -- Either both sessions remember the tree alike, or one recalls what the other remembers.
  rcases ahead.remembered e.key with same | ⟨v, additional, miss, hit⟩
  · cases looked : t.remembered.lookup e.key with
    | some v =>
      rw [unfolded, run_remember_of_hit e body looked, run_remember_of_hit e body (same.trans looked)]
      exact .done ⟨rfl, ahead⟩
    | none =>
      rw [unfolded, run_remember_of_miss e body looked, run_remember_of_miss e body (same.trans looked)]
      refine (keeps t t' ahead).bind ?_
      rintro ⟨v, u⟩ ⟨_, u'⟩ ⟨rfl, after⟩
      exact .done ⟨(fst_keep e _ u').trans (fst_keep e _ u).symm, after.keep (new looked) _⟩
  · rw [recalls e member v additional t ahead.base miss, unfolded, run_remember_of_hit e body hit]
    refine .done ⟨rfl, ahead.base.insert (new miss) v, ahead.errors, fun key => ?_⟩
    rw [List.lookup_cons]
    cases same : key == e.key with
    | true => exact .inl (by rw [beq_iff_eq.mp same, hit])
    | false => exact ahead.remembered key

/-- A session may be ahead by a value that its calculation gives again. -/
theorem stable_ahead_of_run {a b : Expr β} {m : Eval β α (Value α)} {base : Session α} {v : Value α}
    (unique : ∀ x ∈ b.subtrees, x.key = a.key → x = a)
    (inner : eval s functions a = Eval.remember a m)
    (again : ∀ t, base.Within t → m.run t = .done (v, t)) (finite : v.isFinite = true)
    (valid : v.Valid) : Stable s functions (subtreesOfList [b])
      (Session.Ahead base fun key w => key = a.key ∧ w = v) := by
  refine stable_ahead ?_
  rintro e member _ ⟨same, rfl⟩ t within miss
  rw [subtreesOfList, subtreesOfList, List.append_nil] at member
  obtain rfl := unique e member same
  rw [inner, run_remember_of_miss e m miss, again t within]
  change Query.done (keep e _ t) = _
  rw [keep_of_isFinite e finite, if_neg (Bool.eq_false_iff.mp valid)]

theorem stable_grows (base : Session α) :
    Stable s functions trees (Session.Ahead base fun _ _ => False) := stable_ahead nofun

theorem grows_evalSum (total : Value α) (xs : List (Expr β)) :
    Grows (Expr.evalSum s functions total xs) := fun base =>
  (stable_grows base).evalSum total xs fun _ member => member

theorem grows_evalProduct (total : Value α) (xs : List (Expr β)) :
    Grows (Expr.evalProduct s functions total xs) := fun base =>
  (stable_grows base).evalProduct total xs fun _ member => member

/-! ## Recalling a calculation -/

section

variable {onLookup : String → StateM σ (LookupResult α)} {parameterOf : σ → String → Option β}
  {session : Session α} {start : σ} {total : Value α}

theorem recallable_eval (e : Expr β) :
    Recallable onLookup parameterOf Value.Valid (Expr.eval s functions e) := by
  rcases eval_cases s functions e with ⟨u, rfl⟩ | ⟨text, rfl⟩ | ⟨body, unfolded⟩
  · exact recallable_pure _
  · exact fun _ _ valid => by cases valid
  · intro session start valid t within
    rw [unfolded] at valid within ⊢
    refine run_remember_of_hit e body (within.remembered _ _ ?_)
    cases looked : session.remembered.lookup e.key with
    | some w =>
      rw [runFrom, run_remember_of_hit e body looked]
      exact looked
    | none =>
      rw [runFrom, run_remember_of_miss e body looked, Query.runState_bind] at valid ⊢
      change (keep e _ _).1.isInvalid = false at valid
      change (keep e _ _).2.remembered.lookup e.key = some (keep e _ _).1
      unfold keep at valid ⊢
      split at valid
      · cases valid
      next finite => rw [if_neg finite, if_neg (Bool.eq_false_iff.mp valid), List.lookup_cons_self]

theorem valid_of_evalSum {xs : List (Expr β)} (valid : (runFrom onLookup parameterOf
    (Expr.evalSum s functions total xs) session start).1.1.Valid) :
    total.Valid := by
  induction xs generalizing total session start with
  | nil => exact valid
  | cons x xs ih =>
    rw [Expr.evalSum, runFrom_bind] at valid
    exact valid_of_apply_bind (Function.binary_ne _) (fun _ _ _ valid => ih valid) valid total
      List.mem_cons_self

/-- A valid sum can be put together from the values of its terms. -/
theorem recallable_evalSum (total : Value α) (xs : List (Expr β)) :
    Recallable onLookup parameterOf Value.Valid (Expr.evalSum s functions total xs) := by
  induction xs generalizing total with
  | nil => exact recallable_pure _
  | cons x xs ih =>
    rw [Expr.evalSum]
    refine (recallable_eval x).bind (fun u => ?_)
      (fun u => grows_apply_bind fun w => grows_evalSum w xs) fun u session start valid => ?_
    · exact (recallable_apply "+" (Function.binary_ne _) [total, u]).bind ih
        (grows_evalSum · xs) fun _ _ _ valid => valid_of_evalSum valid
    · exact valid_of_apply_bind (Function.binary_ne _) (fun _ _ _ valid => valid_of_evalSum valid) valid
        u (by simp)

theorem valid_of_evalProduct {xs : List (Expr β)} (regular : Value.Regular (runFrom onLookup parameterOf
    (Expr.evalProduct s functions total xs) session start).1.1) : total.Valid := by
  induction xs generalizing total session start with
  | nil => exact regular.1
  | cons x xs ih =>
    rw [Expr.evalProduct, runFrom_bind] at regular
    split at regular
    · exact absurd rfl regular.2
    · exact valid_of_apply_bind (Function.binary_ne _) (fun _ _ _ regular => ih regular) regular total
        List.mem_cons_self

theorem recallable_evalProduct (total : Value α) (xs : List (Expr β)) :
    Recallable onLookup parameterOf Value.Regular (Expr.evalProduct s functions total xs) := by
  induction xs generalizing total with
  | nil => exact recallable_pure _
  | cons x xs ih =>
    rw [Expr.evalProduct]
    refine (recallable_eval x).bind (fun u => ?_) (fun u => ?_) fun u session start regular => ?_
    · split
      · exact recallable_pure _
      · exact (recallable_apply "*" (Function.binary_ne _) [total, u]).bind ih
          (grows_evalProduct · xs) fun _ _ _ regular => valid_of_evalProduct regular
    · split
      · exact fun base => keeps_pure _
      · exact grows_apply_bind fun w => grows_evalProduct w xs
    · split at regular
      · exact absurd rfl regular.2
      · exact valid_of_apply_bind (Function.binary_ne _)
          (fun _ _ _ regular => valid_of_evalProduct regular) regular u (by simp)

end

end Expr

end FiniteVolume
