import FiniteVolume.Proofs.Expression.Memory
import FiniteVolume.Proofs.Expression.Numerals

/-!
What the key of an expression says about it.

The key of a tree is the text of a phrase. A tree is legible if its names and numbers are words that
cannot be taken for each other and its calls are not written like other trees; a product of fewer
than two factors is written like a sum. Legible trees are determined by their keys (`Expr.key_inj`).
-/
namespace FiniteVolume.Expr

variable {β α : Type} [BaseScalar β]

/-! ## Keys as phrases -/

mutual

def phrase : Expr β → Phrase
  | constant v => .word (BaseScalar.literalText v).toList
  | parameter n => .word ('$' :: n.toList)
  | model n => .word n.toList
  | sum xs => .group ['+'] (phrases xs)
  | product xs => .group ['*'] (phrases xs)
  | ifThen c t => .applied "if".toList [phrase c, phrase t]
  | ifElse c t e => .applied "ifelse".toList [phrase c, phrase t, phrase e]
  | call name args =>
    match phrases args, operatorSymbol? name with
    | [x, y], some symbol => .group symbol.toList [x, y]
    | [x], _ => if name = "!" then .marked x else .applied name.toList [x]
    | parts, _ => .applied name.toList parts
  | invalid text => .word text.toList

def phrases : List (Expr β) → List Phrase
  | [] => []
  | x :: xs => phrase x :: phrases xs

end

theorem textOfList_eq (p : List Char) (xs : List Phrase) :
    Phrase.textOfList p xs = p.intercalate (xs.map Phrase.text) := by
  cases xs with
  | nil => rfl
  | cons x xs =>
    induction xs generalizing x with
    | nil => simp [Phrase.textOfList, Phrase.textOfRest]
    | cons y ys ih => simpa [Phrase.textOfList, Phrase.textOfRest] using ih y

@[simp] theorem length_phrases (xs : List (Expr β)) : (phrases xs).length = xs.length := by
  induction xs with
  | nil => rfl
  | cons _ xs ih => exact congrArg (· + 1) ih

mutual

theorem toList_key : ∀ e : Expr β, e.key.toList = e.phrase.text
  | constant _ | invalid _ | model _ => rfl
  | parameter n => by simp [key, render, phrase, Phrase.text]
  | sum xs => by
    simp [key, render, phrase, Phrase.text, textOfList_eq, ← toList_renderList xs, Phrase.spaced]
  | product xs => by
    simp [key, render, phrase, Phrase.text, textOfList_eq, ← toList_renderList xs, Phrase.spaced]
  | ifThen c t => by
    have cond := toList_key c
    have body := toList_key t
    rw [key] at cond body
    simp [key, render, phrase, Phrase.text, textOfList_eq, Phrase.comma, cond, body,
      List.intercalate]
  | ifElse c t e => by
    have cond := toList_key c
    have body := toList_key t
    have other := toList_key e
    rw [key] at cond body other
    simp [key, render, phrase, Phrase.text, textOfList_eq, Phrase.comma, cond, body, other,
      List.intercalate]
  | call name args => by
    have parts := toList_renderList args
    rw [key, render, phrase]
    rcases args with _ | ⟨x, _ | ⟨y, _ | ⟨z, rest⟩⟩⟩
    · simp [renderList, phrases, Phrase.text, textOfList_eq]
    · simp only [renderList, phrases] at parts ⊢
      by_cases mark : name = "!" 
      · simp_all [Phrase.text]
      · simp_all [Phrase.text, textOfList_eq]
    · simp only [renderList, phrases] at parts ⊢
      cases operatorSymbol? name with
      | none => simp_all [Phrase.text, textOfList_eq, Phrase.comma]
      | some symbol => simp_all [Phrase.text, textOfList_eq, Phrase.spaced, List.intercalate]
    · simp_all [renderList, phrases, Phrase.text, textOfList_eq, Phrase.comma]

theorem toList_renderList : ∀ xs : List (Expr β),
    (renderList true xs).map String.toList = (phrases xs).map Phrase.text
  | [] => rfl
  | x :: xs => by
    rw [renderList, phrases, List.map_cons, List.map_cons, toList_renderList xs]
    exact congrArg (· :: _) (toList_key x)

end

/-! ## Legible trees -/

open Phrase (IsWord)

/-- Calls of a number of arguments that are not written like another tree. -/
def LegibleCall (name : String) (arity : Nat) : Prop :=
  (name = "!" ∧ arity = 1) ∨ ((operatorSymbol? name).isSome ∧ arity = 2) ∨
    (IsWord name.toList ∧ ¬(name = "if" ∧ arity = 2) ∧ ¬(name = "ifelse" ∧ arity = 3))

mutual

/-- A tree that cannot be taken for another by its key: names are words, models are named like no
parameter and no number, every number has a text of its own, and products have two factors. -/
def Legible : Expr β → Prop
  | constant v => IsWord (BaseScalar.literalText v).toList ∧
      (BaseScalar.literalText v).toList.head? ≠ some '$' ∧
      ∀ w : β, BaseScalar.literalText v = BaseScalar.literalText w → v = w
  | parameter n => IsWord ('$' :: n.toList)
  | model n => IsWord n.toList ∧ n.toList.head? ≠ some '$' ∧ ∀ v : β, BaseScalar.literalText v ≠ n
  | sum xs => LegibleList xs
  | product xs => 2 ≤ xs.length ∧ LegibleList xs
  | ifThen c t => Legible c ∧ Legible t
  | ifElse c t e => Legible c ∧ Legible t ∧ Legible e
  | call name args => LegibleCall name args.length ∧ LegibleList args
  | invalid _ => False

def LegibleList : List (Expr β) → Prop
  | [] => True
  | x :: xs => Legible x ∧ LegibleList xs

end

mutual

theorem Legible.of_mem_subtrees : ∀ {e : Expr β}, e.Legible → ∀ x ∈ e.subtrees, x.Legible
  | constant _, _, _, member | invalid _, _, _, member => absurd member List.not_mem_nil
  | parameter n, legible, _, member | model n, legible, _, member =>
    List.mem_singleton.mp member ▸ legible
  | sum xs, legible, x, member => by
    rcases List.mem_cons.mp member with rfl | below
    · exact legible
    · exact LegibleList.of_mem_subtrees legible x below
  | product xs, legible, x, member => by
    rcases List.mem_cons.mp member with rfl | below
    · exact legible
    · exact LegibleList.of_mem_subtrees legible.2 x below
  | ifThen c t, legible, x, member => by
    rcases List.mem_cons.mp member with rfl | below
    · exact legible
    · rcases List.mem_append.mp below with cond | body
      · exact Legible.of_mem_subtrees legible.1 x cond
      · exact Legible.of_mem_subtrees legible.2 x body
  | ifElse c t e, legible, x, member => by
    rcases List.mem_cons.mp member with rfl | below
    · exact legible
    · rcases List.mem_append.mp below with both | other
      · rcases List.mem_append.mp both with cond | body
        · exact Legible.of_mem_subtrees legible.1 x cond
        · exact Legible.of_mem_subtrees legible.2.1 x body
      · exact Legible.of_mem_subtrees legible.2.2 x other
  | call name args, legible, x, member => by
    rcases List.mem_cons.mp member with rfl | below
    · exact legible
    · exact LegibleList.of_mem_subtrees legible.2 x below

theorem LegibleList.of_mem_subtrees : ∀ {xs : List (Expr β)}, LegibleList xs →
    ∀ x ∈ subtreesOfList xs, x.Legible
  | [], _, _, member => absurd member List.not_mem_nil
  | _ :: _, legible, x, member => by
    rcases List.mem_append.mp member with head | tail
    · exact Legible.of_mem_subtrees legible.1 x head
    · exact LegibleList.of_mem_subtrees legible.2 x tail

end

theorem legible_constant (v : ℚ) : (constant v).Legible :=
  ⟨Numeral.isWord_literalText v, fun head => Numeral.ne_of_mem_literalText
    (List.mem_of_mem_head? head) (by decide) (by decide) (by decide) rfl,
    fun _ same => Numeral.literalText_inj same⟩

theorem legible_model {n : String} (word : IsWord n.toList) (plain : n.toList.head? ≠ some '$')
    (noSlash : '/' ∉ n.toList) : (model n : Expr ℚ).Legible := by
  refine ⟨word, plain, fun v same => noSlash ?_⟩
  rw [← same, Numeral.toList_literalText]
  simp

/-! ## Calls -/

theorem eq_of_operatorSymbol? {name symbol : String} (found : operatorSymbol? name = some symbol) :
    name = "pow" ∧ symbol = "^" ∨
      name = symbol ∧ name ∈ ["&&", "||", "==", "!=", "<", "<=", ">", ">="] := by
  unfold operatorSymbol? at found
  split at found
  · exact .inl ⟨‹_›, (Option.some.inj found).symm⟩
  · split at found
    · exact .inr ⟨Option.some.inj found, ‹_›⟩
    · cases found

/-- The symbols of calls have no blanks, are not those of sums and products, and give the name. -/
theorem operatorSymbol?_spec {name symbol : String} (found : operatorSymbol? name = some symbol) :
    ' ' ∉ symbol.toList ∧ symbol.toList ≠ ['+'] ∧ symbol.toList ≠ ['*'] ∧
      (if symbol.toList = ['^'] then "pow".toList else symbol.toList) = name.toList := by
  rcases eq_of_operatorSymbol? found with ⟨rfl, rfl⟩ | ⟨rfl, listed⟩
  · decide
  · clear found
    revert name
    decide

/-- How a legible call is written: with a mark, an operator or its name. -/
theorem phrase_call {name : String} {args : List (Expr β)} (legible : (call name args).Legible) :
    (∃ x, name = "!" ∧ args = [x] ∧ (call name args).phrase = .marked x.phrase) ∨
    (∃ x y symbol, args = [x, y] ∧ operatorSymbol? name = some symbol ∧
      (call name args).phrase = .group symbol.toList [x.phrase, y.phrase]) ∨
    (IsWord name.toList ∧ (call name args).phrase = .applied name.toList (phrases args) ∧
      ¬(name = "if" ∧ args.length = 2) ∧ ¬(name = "ifelse" ∧ args.length = 3)) := by
  rcases legible.1 with ⟨rfl, arity⟩ | ⟨symbol, arity⟩ | ⟨isWord, special⟩
  · obtain ⟨x, rfl⟩ := List.length_eq_one_iff.mp arity
    exact .inl ⟨x, rfl, rfl, rfl⟩
  · obtain ⟨symbol, found⟩ := Option.isSome_iff_exists.mp symbol
    obtain ⟨x, y, rfl⟩ := List.length_eq_two.mp arity
    exact .inr (.inl ⟨x, y, symbol, rfl, found, by simp [phrase, phrases, found]⟩)
  · have unmarked : name ≠ "!" := fun mark => by
      subst mark
      exact absurd isWord (by decide)
    rcases args with _ | ⟨x, _ | ⟨y, _ | ⟨z, rest⟩⟩⟩
    · exact .inr (.inr ⟨isWord, rfl, special⟩)
    · exact .inr (.inr ⟨isWord, by simp [phrase, phrases, unmarked], special⟩)
    · cases found : operatorSymbol? name with
      | none => exact .inr (.inr ⟨isWord, by simp [phrase, phrases, found], special⟩)
      | some symbol =>
        exact .inr (.inl ⟨x, y, symbol, rfl, rfl, by simp [phrase, phrases, found]⟩)
    · exact .inr (.inr ⟨isWord, rfl, special⟩)

/-- The name and the arguments of a call from the way it is written. -/
def called : Phrase → List Char × List Phrase
  | .word w => (w, [])
  | .group symbol xs => (if symbol = ['^'] then "pow".toList else symbol, xs)
  | .marked x => (['!'], [x])
  | .applied name xs => (name, xs)

theorem called_phrase {name : String} {args : List (Expr β)} (legible : (call name args).Legible) :
    called (call name args).phrase = (name.toList, phrases args) := by
  rcases phrase_call legible with ⟨x, rfl, rfl, written⟩ | ⟨x, y, symbol, rfl, found, written⟩ |
    ⟨-, written, -⟩ <;> rw [written, called]
  · rfl
  · exact Prod.ext (operatorSymbol?_spec found).2.2.2 rfl

theorem eq_call_of_phrase_eq {name : String} {args : List (Expr β)} {e : Expr β}
    (legible : (call name args).Legible) (same : (call name args).phrase = e.phrase) :
    e.Legible → ∃ n xs, e = call n xs := by
  intro legible'
  rcases phrase_call legible with ⟨x, -, -, written⟩ | ⟨x, y, symbol, -, found, written⟩ |
      ⟨-, written, noIf, noIfElse⟩ <;>
    rw [written] at same
  · cases e <;> simp [Expr.phrase] at same
    exact ⟨_, _, rfl⟩
  · obtain ⟨-, plus, times, -⟩ := operatorSymbol?_spec found
    cases e <;> simp only [Expr.phrase, Phrase.group.injEq, reduceCtorEq] at same
    · exact absurd same.1 plus
    · exact absurd same.1 times
    · exact ⟨_, _, rfl⟩
  · cases e <;> simp only [Expr.phrase, Phrase.applied.injEq, reduceCtorEq] at same
    · refine absurd ⟨String.toList_inj.mp same.1, ?_⟩ noIf
      simpa using congrArg List.length same.2
    · refine absurd ⟨String.toList_inj.mp same.1, ?_⟩ noIfElse
      simpa using congrArg List.length same.2
    · exact ⟨_, _, rfl⟩

/-! ## Determined by the key -/

mutual

theorem Legible.phrase : ∀ {e : Expr β}, e.Legible → e.phrase.Legal
  | constant _, legible | model _, legible => legible.1
  | parameter _, legible => legible
  | invalid _, legible => legible.elim
  | sum xs, legible => ⟨by decide, fun _ => rfl, LegibleList.phrases legible⟩
  | product xs, legible => by
    refine ⟨by decide, fun short => ?_, LegibleList.phrases legible.2⟩
    rw [length_phrases] at short
    exact absurd legible.1 (Nat.not_le.mpr short)
  | ifThen c t, legible => ⟨by decide, Legible.phrase legible.1, Legible.phrase legible.2, trivial⟩
  | ifElse c t e, legible => ⟨by decide, Legible.phrase legible.1, Legible.phrase legible.2.1,
      Legible.phrase legible.2.2, trivial⟩
  | call name args, legible => by
    have parts := LegibleList.phrases legible.2
    rcases phrase_call legible with ⟨x, -, rfl, written⟩ | ⟨x, y, symbol, rfl, found, written⟩ |
      ⟨isWord, written, -⟩
    · rw [written]
      exact parts.1
    · rw [written]
      exact ⟨(operatorSymbol?_spec found).1, fun short => absurd short (by simp), parts⟩
    · rw [written]
      exact ⟨isWord, parts⟩

theorem LegibleList.phrases : ∀ {xs : List (Expr β)}, LegibleList xs →
    Phrase.LegalList (Expr.phrases xs)
  | [], _ => trivial
  | _ :: _, legible => ⟨Legible.phrase legible.1, LegibleList.phrases legible.2⟩

end

mutual

theorem phrase_inj : ∀ (a b : Expr β), a.Legible → b.Legible → a.phrase = b.phrase → a = b
  | call name args, b, legible, legible', same => by
    -- The way a legible call is written gives back its name and arguments.
    obtain ⟨name', args', rfl⟩ := eq_call_of_phrase_eq legible same legible'
    have parts := (called_phrase legible).symm.trans (same ▸ called_phrase legible')
    obtain ⟨names, parts⟩ := Prod.mk.inj parts
    rw [String.toList_inj.mp names, phrases_inj args args' legible.2 legible'.2 parts]
  | constant v, b, legible, legible', same => by
    -- Parameters and models are single words, too: a mark or not being a number tells them apart.
    cases b with
    | constant w =>
      rw [legible.2.2 w (String.toList_inj.mp (Phrase.word.inj same))]
    | parameter n => exact absurd (congrArg List.head? (Phrase.word.inj same)) legible.2.1
    | model n => exact absurd (String.toList_inj.mp (Phrase.word.inj same)) (legible'.2.2 v)
    | call => obtain ⟨_, _, ⟨⟩⟩ := eq_call_of_phrase_eq legible' same.symm legible
    | invalid => exact legible'.elim
    | _ => simp only [Expr.phrase, reduceCtorEq] at same
  | parameter n, b, legible, legible', same => by
    cases b with
    | constant v => exact absurd (congrArg List.head? (Phrase.word.inj same)).symm legible'.2.1
    | parameter n' =>
      rw [String.toList_inj.mp (List.cons.inj (Phrase.word.inj same)).2]
    | model n' => exact absurd (congrArg List.head? (Phrase.word.inj same)).symm legible'.2.1
    | call => obtain ⟨_, _, ⟨⟩⟩ := eq_call_of_phrase_eq legible' same.symm legible
    | invalid => exact legible'.elim
    | _ => simp only [Expr.phrase, reduceCtorEq] at same
  | model n, b, legible, legible', same => by
    cases b with
    | constant v =>
      exact absurd (String.toList_inj.mp (Phrase.word.inj same)).symm (legible.2.2 v)
    | parameter n' => exact absurd (congrArg List.head? (Phrase.word.inj same)) legible.2.1
    | model n' => rw [String.toList_inj.mp (Phrase.word.inj same)]
    | call => obtain ⟨_, _, ⟨⟩⟩ := eq_call_of_phrase_eq legible' same.symm legible
    | invalid => exact legible'.elim
    | _ => simp only [Expr.phrase, reduceCtorEq] at same
  | sum xs, b, legible, legible', same => by
    cases b with
    | sum ys => rw [phrases_inj xs ys legible legible' (Phrase.group.inj same).2]
    | product ys => exact absurd (Phrase.group.inj same).1 (by decide)
    | call => obtain ⟨_, _, ⟨⟩⟩ := eq_call_of_phrase_eq legible' same.symm legible
    | _ => simp only [Expr.phrase, reduceCtorEq] at same
  | product xs, b, legible, legible', same => by
    cases b with
    | sum ys => exact absurd (Phrase.group.inj same).1 (by decide)
    | product ys => rw [phrases_inj xs ys legible.2 legible'.2 (Phrase.group.inj same).2]
    | call => obtain ⟨_, _, ⟨⟩⟩ := eq_call_of_phrase_eq legible' same.symm legible
    | _ => simp only [Expr.phrase, reduceCtorEq] at same
  | ifThen c t, b, legible, legible', same => by
    cases b with
    | ifThen c' t' =>
      obtain ⟨conds, bodies⟩ := List.cons.inj (Phrase.applied.inj same).2
      rw [phrase_inj c c' legible.1 legible'.1 conds,
        phrase_inj t t' legible.2 legible'.2 (List.cons.inj bodies).1]
    | ifElse => exact absurd (Phrase.applied.inj same).1 (by decide)
    | call => obtain ⟨_, _, ⟨⟩⟩ := eq_call_of_phrase_eq legible' same.symm legible
    | _ => simp only [Expr.phrase, reduceCtorEq] at same
  | ifElse c t e, b, legible, legible', same => by
    cases b with
    | ifElse c' t' e' =>
      obtain ⟨conds, rest⟩ := List.cons.inj (Phrase.applied.inj same).2
      obtain ⟨bodies, others⟩ := List.cons.inj rest
      rw [phrase_inj c c' legible.1 legible'.1 conds,
        phrase_inj t t' legible.2.1 legible'.2.1 bodies,
        phrase_inj e e' legible.2.2 legible'.2.2 (List.cons.inj others).1]
    | ifThen => exact absurd (Phrase.applied.inj same).1 (by decide)
    | call => obtain ⟨_, _, ⟨⟩⟩ := eq_call_of_phrase_eq legible' same.symm legible
    | _ => simp only [Expr.phrase, reduceCtorEq] at same
  | invalid _, _, legible, _, _ => legible.elim

theorem phrases_inj : ∀ (xs ys : List (Expr β)), LegibleList xs → LegibleList ys →
    phrases xs = phrases ys → xs = ys
  | [], [], _, _, _ => rfl
  | x :: xs, y :: ys, legible, legible', same => by
    obtain ⟨head, tail⟩ := List.cons.inj same
    rw [phrase_inj x y legible.1 legible'.1 head, phrases_inj xs ys legible.2 legible'.2 tail]

end

theorem key_inj {a b : Expr β} (legible : a.Legible) (legible' : b.Legible)
    (same : a.key = b.key) : a = b := by
  refine phrase_inj a b legible legible' (Phrase.text_inj legible.phrase legible'.phrase ?_)
  rw [← toList_key, ← toList_key, same]

theorem Legible.distinctKeys {e : Expr β} (legible : e.Legible) : e.DistinctKeys :=
  fun x inX y inY => key_inj (legible.of_mem_subtrees x inX) (legible.of_mem_subtrees y inY)

/-! ## Equal keys -/

section

variable [Scalar α] [Precision β α]

/-- Legible trees of one key have one value, and what is remembered under a key is never the value
of another tree. -/
theorem value_eq_of_key_eq (c : Context β α) (functions : Registry α) (expected : Option Domain) :
    (∀ a b : Expr β, a.Legible → b.Legible → a.key = b.key →
      (a.evaluateAnew c functions expected).value = (b.evaluateAnew c functions expected).value) ∧
    ∀ e : Expr β, e.Legible → (c.answer (e.evaluate c.surroundings functions expected)).value =
      (e.evaluateAnew c functions expected).value := by
  refine ⟨fun a b legible legible' same => ?_, fun e legible => ?_⟩
  · rw [key_inj legible legible' same]
  · exact (evaluate_of_alike (legible.distinctKeys.alike c functions) expected).1

end

/-- A parameter and a model of one name, both with the same factor. -/
def namesakes : Expr ℚ :=
  sum [product [constant 2, parameter "V"], product [constant 2, model "V"]]

def named : Context ℚ ℚ where
  lookup name := .ok (if name = "V" then some ⟨.node, .vector #[5, 6]⟩ else none)
  parameter name := if name = "V" then some 3 else none
  surroundings := { edgeMap := fun _ => #[], chunking := .serial }

/-- The products have different values, although their texts differ in one sign only. -/
theorem value_of_namesakes : namesakes.Legible ∧
    (named.answer (namesakes.evaluate named.surroundings .builtin none)).value =
      (namesakes.evaluateAnew named .builtin none).value ∧
    (namesakes.evaluateAnew named .builtin none).value = .field .node (.vector #[16, 18]) := by
  have legible : namesakes.Legible := by
    have two := legible_constant 2
    have parameter : (parameter "V" : Expr ℚ).Legible := by
      change Phrase.IsWord _
      decide
    have model : (model "V" : Expr ℚ).Legible := legible_model (by decide) (by decide) (by decide)
    exact ⟨⟨Nat.le_refl 2, two, parameter, trivial⟩, ⟨Nat.le_refl 2, two, model, trivial⟩, trivial⟩
  exact ⟨legible, (value_eq_of_key_eq named .builtin none).2 namesakes legible, by decide +kernel⟩

/-- A sum and a product of nothing are written alike, so that the value of the one is remembered for
the other. -/
theorem value_of_empty_product_after_empty_sum :
    (sum [] : Expr ℚ).key = (product [] : Expr ℚ).key ∧
      ((sum []).evaluateAnew named .builtin none).value = .scalar 0 ∧
      ((product []).evaluateAnew named .builtin none).value = .scalar 1 ∧
      ((sum [sum [], product []]).evaluateAnew named .builtin none).value = .scalar 1 ∧
      (named.answer ((sum [sum [], product []]).evaluate named.surroundings .builtin none)).value =
        .scalar 0 := by
  decide +kernel

end FiniteVolume.Expr
