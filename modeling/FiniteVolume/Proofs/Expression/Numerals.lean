import FiniteVolume.Proofs.Expression.Phrase
import FiniteVolume.Proofs.Numeric.Exact

/-!
The texts of rational numbers are words, and each number has its own.
-/
namespace FiniteVolume.Numeral

open Phrase

theorem digits_repr (n : Nat) : (∀ c ∈ n.repr.toList, c.isDigit = true) ∧
    Nat.ofDigitChars 10 n.repr.toList 0 = n := by
  rw [Nat.toList_repr]
  exact ⟨fun c => Nat.isDigit_of_mem_toDigits (by decide) (by decide),
    Nat.ofDigitChars_toDigits (by decide) (by decide)⟩

def readInt (text : List Char) : Int :=
  if text.head? = some '-' then -(Nat.ofDigitChars 10 text.tail 0 : Int)
  else Nat.ofDigitChars 10 text 0

theorem digits_int (n : Int) : (∀ c ∈ n.repr.toList, c.isDigit = true ∨ c = '-') ∧
    readInt n.repr.toList = n := by
  rw [Int.repr_eq_if]
  split
  · obtain ⟨digits, value⟩ := digits_repr n.toNat
    refine ⟨fun c member => .inl (digits c member), ?_⟩
    have unsigned : n.toNat.repr.toList.head? ≠ some '-' := fun sign =>
      absurd (digits _ (List.mem_of_mem_head? sign)) (by decide)
    rw [readInt, if_neg unsigned, value]
    omega
  · obtain ⟨digits, value⟩ := digits_repr (-n).toNat
    have signed : ("-" ++ (-n).toNat.repr).toList = '-' :: (-n).toNat.repr.toList := by simp
    rw [signed]
    refine ⟨fun c member => (List.mem_cons.mp member).symm.imp_left (digits c), ?_⟩
    rw [readInt, if_pos (List.head?_cons ..), List.tail_cons, value]
    omega

/-! ## Fractions -/

theorem toList_literalText (v : ℚ) : (BaseScalar.literalText v).toList =
    v.num.repr.toList ++ '/' :: v.den.repr.toList := by
  change (v.num.repr ++ "/" ++ v.den.repr).toList = _
  simp

theorem literalText_inj {v w : ℚ} (same : BaseScalar.literalText v = BaseScalar.literalText w) :
    v = w := by
  have texts := congrArg String.toList same
  rw [toList_literalText, toList_literalText] at texts
  have noSlash : ∀ n : Int, ∀ c ∈ n.repr.toList, (c != '/') = true := fun n c member => by
    rcases (digits_int n).1 c member with digit | rfl
    · simpa using fun slash : c = '/' => by simp [slash] at digit
    · decide
  have nums : v.num.repr.toList = w.num.repr.toList := by
    rw [← takeWhile_append (s := '/' :: v.den.repr.toList) (noSlash v.num) (by simp), texts,
      takeWhile_append (noSlash w.num) (by simp)]
  rw [nums] at texts
  have dens : v.den.repr.toList = w.den.repr.toList :=
    (List.cons.inj (List.append_cancel_left texts)).2
  refine Rat.ext ?_ ?_
  · rw [← (digits_int v.num).2, nums, (digits_int w.num).2]
  · rw [← (digits_repr v.den).2, dens, (digits_repr w.den).2]

/-- A fraction has digits, a sign and a slash only. -/
theorem ne_of_mem_literalText {v : ℚ} {c d : Char} (member : c ∈ (BaseScalar.literalText v).toList)
    (noDigit : d.isDigit = false) (noSign : d ≠ '-') (noSlash : d ≠ '/') : c ≠ d := by
  rintro rfl
  rw [toList_literalText, List.mem_append, List.mem_cons] at member
  rcases member with num | slash | den
  · rcases (digits_int v.num).1 c num with digit | sign
    · simp [noDigit] at digit
    · exact noSign sign
  · exact noSlash slash
  · exact absurd ((digits_repr v.den).1 c den) (by simp [noDigit])

theorem isWord_literalText (v : ℚ) : IsWord (BaseScalar.literalText v).toList := by
  refine ⟨by simp [toList_literalText], fun c member => ?_, fun mark => ?_⟩
  · have others : ∀ d ∈ [' ', '(', ')', ','], c ≠ d := by
      intro d listed
      have plain : d.isDigit = false ∧ d ≠ '-' ∧ d ≠ '/' := by
        simp only [List.mem_cons, List.not_mem_nil, or_false] at listed
        rcases listed with rfl | rfl | rfl | rfl <;> decide
      exact ne_of_mem_literalText member plain.1 plain.2.1 plain.2.2
    simpa [isLetter] using others
  · exact ne_of_mem_literalText (List.mem_of_mem_head? mark) (by decide) (by decide) (by decide) rfl

end FiniteVolume.Numeral
