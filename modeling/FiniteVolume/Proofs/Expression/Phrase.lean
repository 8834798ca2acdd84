import Mathlib.Data.List.Basic

/-!
Phrases: texts built from words with brackets, as the text of an expression is.

A phrase is read back from its text in one way only, also inside a longer text: where it ends, the
next letter is a blank, a comma or a closing bracket (`Phrase.text_append_inj`).
-/
namespace FiniteVolume

inductive Phrase where
  | word (letters : List Char)
  /-- Parts in brackets, with a symbol between them. -/
  | group (symbol : List Char) (parts : List Phrase)
  /-- A part in brackets after an exclamation mark. -/
  | marked (part : Phrase)
  /-- Parts in brackets after a name, with commas between them. -/
  | applied (name : List Char) (parts : List Phrase)

namespace Phrase

def spaced (symbol : List Char) : List Char := ' ' :: (symbol ++ [' '])

def comma : List Char := [',', ' ']

mutual

def text : Phrase → List Char
  | word w => w
  | group symbol xs => '(' :: (textOfList (spaced symbol) xs ++ [')'])
  | marked x => '(' :: '!' :: (text x ++ [')'])
  | applied name xs => name ++ '(' :: (textOfList comma xs ++ [')'])

def textOfList (separator : List Char) : List Phrase → List Char
  | [] => []
  | x :: xs => text x ++ textOfRest separator xs

def textOfRest (separator : List Char) : List Phrase → List Char
  | [] => []
  | x :: xs => separator ++ (text x ++ textOfRest separator xs)

end

theorem text_group_append (symbol : List Char) (xs : List Phrase) (s : List Char) :
    (group symbol xs).text ++ s = '(' :: (textOfList (spaced symbol) xs ++ ')' :: s) := by
  simp [text]

theorem text_marked_append (x : Phrase) (s : List Char) :
    (marked x).text ++ s = '(' :: '!' :: (x.text ++ ')' :: s) := by
  simp [text]

theorem text_applied_append (name : List Char) (xs : List Phrase) (s : List Char) :
    (applied name xs).text ++ s = name ++ '(' :: (textOfList comma xs ++ ')' :: s) := by
  simp [text]

/-! ## Words -/

/-- A letter that does not belong to the brackets around a word. -/
def isLetter (c : Char) : Bool := c ∉ [' ', '(', ')', ',']

/-- A name or number that can be told from what surrounds it. -/
def IsWord (w : List Char) : Prop := w ≠ [] ∧ (∀ c ∈ w, isLetter c) ∧ w.head? ≠ some '!'

instance (w : List Char) : Decidable (IsWord w) :=
  decidable_of_iff (w ≠ [] ∧ w.all isLetter = true ∧ w.head? ≠ some '!') (by simp [IsWord])

def Breaks (s : List Char) : Prop := ∀ c ∈ s.head?, isLetter c = false

theorem takeWhile_append {p : Char → Bool} {w s : List Char} (inside : ∀ c ∈ w, p c)
    (outside : ∀ c ∈ s.head?, p c = false) : (w ++ s).takeWhile p = w := by
  rw [List.takeWhile_append_of_pos inside]
  cases s with
  | nil => simp
  | cons c s => simp [outside c rfl]

theorem append_inj_of_breaks {w w' s t : List Char} (letters : ∀ c ∈ w, isLetter c)
    (letters' : ∀ c ∈ w', isLetter c) (breaks : Breaks s) (breaks' : Breaks t)
    (same : w ++ s = w' ++ t) : w = w' ∧ s = t := by
  have words : w = w' := by
    rw [← takeWhile_append letters breaks, same, takeWhile_append letters' breaks']
  subst words
  exact ⟨rfl, List.append_cancel_left same⟩

theorem breaks_open {s : List Char} : Breaks ('(' :: s) := by simp [Breaks, isLetter]

theorem IsWord.exists_cons {w : List Char} (isWord : IsWord w) :
    ∃ c rest, w = c :: rest ∧ isLetter c = true ∧ c ≠ '!' := by
  obtain ⟨nonempty, letters, plain⟩ := isWord
  cases w with
  | nil => exact absurd rfl nonempty
  | cons c rest => exact ⟨c, rest, rfl, letters c List.mem_cons_self, fun mark => plain (by simp [mark])⟩

/-! ## Legal phrases -/

mutual

/-- A phrase whose words are words, and whose groups of fewer than two parts are sums. -/
def Legal : Phrase → Prop
  | word w => IsWord w
  | group symbol xs => ' ' ∉ symbol ∧ (xs.length < 2 → symbol = ['+']) ∧ LegalList xs
  | marked x => Legal x
  | applied name xs => IsWord name ∧ LegalList xs

def LegalList : List Phrase → Prop
  | [] => True
  | x :: xs => Legal x ∧ LegalList xs

end

def Ends (s : List Char) : Prop := ∀ c ∈ s.head?, c ∈ [' ', ')', ',']

theorem Ends.breaks {s : List Char} (ends : Ends s) : Breaks s := fun c head => by
  have stop := ends c head
  simp only [List.mem_cons, List.not_mem_nil, or_false] at stop
  rcases stop with rfl | rfl | rfl <;> decide

theorem ends_close (s : List Char) : Ends (')' :: s) := by simp [Ends]

theorem Legal.exists_cons : ∀ {x : Phrase}, x.Legal →
    ∃ c rest, x.text = c :: rest ∧ c ≠ ')' ∧ c ≠ '!'
  | word w, legal => by
    obtain ⟨c, rest, rfl, letter, plain⟩ := IsWord.exists_cons legal
    exact ⟨c, rest, rfl, fun close => by simp [close, isLetter] at letter, plain⟩
  | group symbol xs, _ => ⟨'(', _, rfl, by decide, by decide⟩
  | marked x, _ => ⟨'(', _, rfl, by decide, by decide⟩
  | applied name xs, legal => by
    obtain ⟨c, rest, rfl, letter, plain⟩ := legal.1.exists_cons
    exact ⟨c, _, rfl, fun close => by simp [close, isLetter] at letter, plain⟩

theorem Ends.ne_open {s : List Char} (ends : Ends s) (t : List Char) : s ≠ '(' :: t := fun opened => by
  simp [opened, Ends] at ends

theorem IsWord.append_ne_open {w : List Char} (isWord : IsWord w) (s t : List Char) :
    w ++ s ≠ '(' :: t := fun opened => by
  obtain ⟨c, rest, rfl, letter, -⟩ := isWord.exists_cons
  obtain ⟨rfl, -⟩ := List.cons.inj opened
  simp [isLetter] at letter

theorem Legal.append_ne_close {x : Phrase} (legal : x.Legal) (s t : List Char) :
    x.text ++ s ≠ ')' :: t := fun closed => by
  obtain ⟨c, rest, starts, close, -⟩ := legal.exists_cons
  rw [starts] at closed
  exact close (List.cons.inj closed).1

theorem LegalList.append_ne_mark {xs : List Phrase} (legal : LegalList xs) (p s t : List Char) :
    textOfList p xs ++ ')' :: s ≠ '!' :: t := fun marked => by
  cases xs with
  | nil => exact absurd (List.cons.inj marked).1 (by decide)
  | cons x xs =>
    obtain ⟨c, rest, starts, -, mark⟩ := legal.1.exists_cons
    rw [textOfList, starts] at marked
    exact mark (List.cons.inj marked).1

/-! ## Separators -/

/-- Separators that are the same wherever texts that start with them are. -/
structure Separators (p q : List Char) : Prop where
  left : ∃ rest, p = ' ' :: rest ∨ p = ',' :: rest
  right : ∃ rest, q = ' ' :: rest ∨ q = ',' :: rest
  inj : ∀ {u v : List Char}, p ++ u = q ++ v → p = q ∧ u = v

theorem separators_comma : Separators comma comma :=
  ⟨⟨_, .inr rfl⟩, ⟨_, .inr rfl⟩, fun same => ⟨rfl, List.append_cancel_left same⟩⟩

theorem separators_spaced {symbol symbol' : List Char} (closed : ' ' ∉ symbol)
    (closed' : ' ' ∉ symbol') : Separators (spaced symbol) (spaced symbol') := by
  refine ⟨⟨_, .inl rfl⟩, ⟨_, .inl rfl⟩, fun {u v} same => ?_⟩
  have trimmed : symbol ++ ' ' :: u = symbol' ++ ' ' :: v := by simpa [spaced] using same
  have inside : ∀ {w : List Char}, ' ' ∉ w → ∀ c ∈ w, (c != ' ') = true := fun free c member => by
    simpa using fun blank : c = ' ' => free (blank ▸ member)
  have symbols : symbol = symbol' := by
    rw [← takeWhile_append (s := ' ' :: u) (inside closed) (by simp), trimmed,
      takeWhile_append (inside closed') (by simp)]
  subst symbols
  exact ⟨rfl, by simpa using trimmed⟩

theorem spaced_inj {symbol symbol' : List Char} (same : spaced symbol = spaced symbol') :
    symbol = symbol' := by simpa [spaced] using same

/-- What follows a part is a separator or the closing bracket. -/
theorem ends_textOfRest {p : List Char} (separates : ∃ rest, p = ' ' :: rest ∨ p = ',' :: rest)
    (xs : List Phrase) (s : List Char) : Ends (textOfRest p xs ++ ')' :: s) := by
  cases xs with
  | nil => simp [textOfRest, Ends]
  | cons x xs => obtain ⟨rest, rfl | rfl⟩ := separates <;> simp [textOfRest, Ends]

theorem append_ne_close {p : List Char} (separates : ∃ rest, p = ' ' :: rest ∨ p = ',' :: rest)
    (u s : List Char) : p ++ u ≠ ')' :: s := by
  obtain ⟨rest, rfl | rfl⟩ := separates <;> simp

/-! ## Reading back -/

mutual

/-- A phrase and the end of a text are told apart in one way only. -/
theorem text_append_inj : ∀ (x y : Phrase) {s t : List Char}, x.Legal → y.Legal → Ends s → Ends t →
    x.text ++ s = y.text ++ t → x = y ∧ s = t
  | word w, word w', s, t, legal, legal', ends, ends', same => by
    obtain ⟨words, rest⟩ := append_inj_of_breaks legal.2.1 legal'.2.1 ends.breaks ends'.breaks same
    exact ⟨congrArg word words, rest⟩
  | word w, applied name ys, s, t, legal, legal', ends, _, same => by
    rw [text_applied_append] at same
    exact absurd (append_inj_of_breaks legal.2.1 legal'.1.2.1 ends.breaks breaks_open same).2
      (ends.ne_open _)
  | applied name xs, word w, s, t, legal, legal', _, ends', same => by
    rw [text_applied_append] at same
    exact absurd (append_inj_of_breaks legal.1.2.1 legal'.2.1 breaks_open ends'.breaks same).2.symm
      (ends'.ne_open _)
  | applied name xs, applied name' ys, s, t, legal, legal', _, _, same => by
    rw [text_applied_append, text_applied_append] at same
    obtain ⟨names, rest⟩ :=
      append_inj_of_breaks legal.1.2.1 legal'.1.2.1 breaks_open breaks_open same
    obtain ⟨rfl, rfl, -⟩ := textOfList_append_inj xs ys separators_comma legal.2 legal'.2
      (List.cons.inj rest).2
    exact ⟨by rw [names], rfl⟩
  | group symbol xs, group symbol' ys, s, t, legal, legal', _, _, same => by
    rw [text_group_append, text_group_append] at same
    obtain ⟨rfl, rfl, symbols⟩ := textOfList_append_inj xs ys
      (separators_spaced legal.1 legal'.1) legal.2.2 legal'.2.2 (List.cons.inj same).2
    refine ⟨congrArg (group · xs) ?_, rfl⟩
    rcases symbols with short | symbols
    · rw [legal.2.1 short, legal'.2.1 short]
    · exact spaced_inj symbols
  | marked x, marked y, s, t, legal, legal', _, _, same => by
    rw [text_marked_append, text_marked_append] at same
    have parts : x.text ++ ')' :: s = y.text ++ ')' :: t := by simpa using same
    obtain ⟨rfl, rest⟩ := text_append_inj x y legal legal' (ends_close s) (ends_close t) parts
    exact ⟨rfl, (List.cons.inj rest).2⟩
  -- phrases of different kinds differ in their first two letters
  | group symbol xs, marked y, s, t, legal, _, _, _, same => by
    rw [text_group_append, text_marked_append] at same
    exact absurd (List.cons.inj same).2 (legal.2.2.append_ne_mark _ _ _)
  | marked x, group symbol ys, s, t, _, legal', _, _, same => by
    rw [text_group_append, text_marked_append] at same
    exact absurd (List.cons.inj same).2.symm (legal'.2.2.append_ne_mark _ _ _)
  | word w, group _ _, _, _, legal, _, _, _, same => absurd same (IsWord.append_ne_open legal _ _)
  | word w, marked _, _, _, legal, _, _, _, same => absurd same (IsWord.append_ne_open legal _ _)
  | group _ _, word w, _, _, _, legal', _, _, same =>
    absurd same.symm (IsWord.append_ne_open legal' _ _)
  | marked _, word w, _, _, _, legal', _, _, same =>
    absurd same.symm (IsWord.append_ne_open legal' _ _)
  | applied name xs, group _ _, _, _, legal, _, _, _, same =>
    absurd ((text_applied_append ..).symm.trans same) (legal.1.append_ne_open _ _)
  | applied name xs, marked _, _, _, legal, _, _, _, same =>
    absurd ((text_applied_append ..).symm.trans same) (legal.1.append_ne_open _ _)
  | group _ _, applied name ys, _, _, _, legal', _, _, same =>
    absurd ((text_applied_append ..).symm.trans same.symm) (legal'.1.append_ne_open _ _)
  | marked _, applied name ys, _, _, _, legal', _, _, same =>
    absurd ((text_applied_append ..).symm.trans same.symm) (legal'.1.append_ne_open _ _)

theorem textOfList_append_inj : ∀ (xs ys : List Phrase) {p q s t : List Char},
    Separators p q → LegalList xs → LegalList ys →
    textOfList p xs ++ ')' :: s = textOfList q ys ++ ')' :: t →
    xs = ys ∧ s = t ∧ (xs.length < 2 ∨ p = q)
  | [], [], _, _, _, _, _, _, _, same =>
    ⟨rfl, (List.cons.inj same).2, .inl (by decide)⟩
  | [], y :: ys, _, _, _, _, _, _, legal', same => by
    rw [textOfList, textOfList, List.append_assoc] at same
    exact absurd same.symm (legal'.1.append_ne_close _ _)
  | x :: xs, [], _, _, _, _, _, legal, _, same => by
    rw [textOfList, textOfList, List.append_assoc] at same
    exact absurd same (legal.1.append_ne_close _ _)
  | x :: xs, y :: ys, p, q, s, t, separators, legal, legal', same => by
    rw [textOfList, textOfList, List.append_assoc, List.append_assoc] at same
    obtain ⟨rfl, rest⟩ := text_append_inj x y legal.1 legal'.1
      (ends_textOfRest separators.left xs s) (ends_textOfRest separators.right ys t) same
    obtain ⟨rfl, rfl, separator⟩ := textOfRest_append_inj xs ys separators legal.2 legal'.2 rest
    refine ⟨rfl, rfl, separator.imp_left fun none => ?_⟩
    simp [none]

theorem textOfRest_append_inj : ∀ (xs ys : List Phrase) {p q s t : List Char},
    Separators p q → LegalList xs → LegalList ys →
    textOfRest p xs ++ ')' :: s = textOfRest q ys ++ ')' :: t →
    xs = ys ∧ s = t ∧ (xs = [] ∨ p = q)
  | [], [], _, _, _, _, _, _, _, same => ⟨rfl, (List.cons.inj same).2, .inl rfl⟩
  | [], y :: ys, _, _, _, _, separators, _, _, same => by
    rw [textOfRest, textOfRest, List.append_assoc] at same
    exact absurd same.symm (append_ne_close separators.right _ _)
  | x :: xs, [], _, _, _, _, separators, _, _, same => by
    rw [textOfRest, textOfRest, List.append_assoc] at same
    exact absurd same (append_ne_close separators.left _ _)
  | x :: xs, y :: ys, p, q, s, t, separators, legal, legal', same => by
    simp only [textOfRest, List.append_assoc] at same
    obtain ⟨separator, parts⟩ := separators.inj same
    obtain ⟨rfl, rest⟩ := text_append_inj x y legal.1 legal'.1
      (ends_textOfRest separators.left xs s) (ends_textOfRest separators.right ys t) parts
    obtain ⟨rfl, rfl, -⟩ := textOfRest_append_inj xs ys separators legal.2 legal'.2 rest
    exact ⟨rfl, rfl, .inr separator⟩

end

theorem text_inj {x y : Phrase} (legal : x.Legal) (legal' : y.Legal) (same : x.text = y.text) :
    x = y :=
  (text_append_inj x y legal legal' (s := []) (t := []) (by simp [Ends]) (by simp [Ends])
    (by rw [same])).1

end Phrase

end FiniteVolume
