import FiniteVolume.Field.Basic

/-!
Elementwise operations do not depend on how the work is divided: `Chunking.map_eq`,
`Chunking.zipWith_eq`, and for fields `Field.toArray_of_mul`.
-/
namespace FiniteVolume

deriving instance DecidableEq for Field

variable {α γ δ : Type}

namespace Chunking

theorem join_cons (part : Array α) (parts : List (Array α)) :
    join (part :: parts) = part ++ join parts := by
  have shift : ∀ (before : Array α) parts, parts.foldl (· ++ ·) before = before ++ join parts := by
    intro before parts
    induction parts generalizing before with
    | nil => simp [join]
    | cons next rest ih => rw [join, List.foldl_cons, List.foldl_cons, ih, ih (#[] ++ next)]; simp
  rw [join, List.foldl_cons, shift]
  simp

theorem join_chunks (size : Nat) (xs : Array α) : join (chunks size xs) = xs := by
  induction length : xs.size using Nat.strongRecOn generalizing xs with
  | _ k ih =>
    rw [chunks]
    split
    next empty => rw [Array.size_eq_zero_iff.mp empty]; rfl
    next filled =>
      split
      next => simp [join]
      next divided =>
        have rest : (xs.extract size xs.size).size < k := by
          rw [Array.size_extract]
          omega
        rw [join_cons, ih _ rest _ rfl, Array.extract_append_extract, Nat.zero_min]
        exact Array.extract_eq_self_of_le (Nat.le_max_right size xs.size)

theorem join_map (f : α → γ) (parts : List (Array α)) :
    join (parts.map (·.map f)) = (join parts).map f := by
  induction parts with
  | nil => simp [join]
  | cons part rest ih => rw [List.map_cons, join_cons, join_cons, ih, Array.map_append]

theorem map_eq (c : Chunking) (f : α → γ) (xs : Array α) : c.map f xs = xs.map f := by
  unfold map
  split
  · rw [join_map, join_chunks]
  · rfl

theorem getElem?_zipInto (f : α → γ → α) (xs : Array α) (ys : Array γ) (i : Nat) :
    (zipInto f xs ys)[i]? = xs[i]?.map fun x => ys[i]?.elim x (f x) := by
  simp [zipInto]

@[simp] theorem size_zipInto (f : α → γ → α) (xs : Array α) (ys : Array γ) :
    (zipInto f xs ys).size = xs.size := by
  simp [zipInto]

theorem getElem?_head {size : Nat} (xs : Array α) {i : Nat} (first : i < size) :
    (xs.extract 0 size)[i]? = xs[i]? := by
  rw [Array.getElem?_extract, Nat.zero_add]
  split
  · rfl
  next outside => rw [Array.getElem?_eq_none (by omega)]

theorem getElem?_tail (size : Nat) (xs : Array α) {i : Nat} (later : size ≤ i) :
    (xs.extract size xs.size)[i - size]? = xs[i]? := by
  rw [Array.getElem?_extract, Nat.add_sub_cancel' later]
  split
  · rfl
  next outside => rw [Array.getElem?_eq_none (by omega)]

/-- Two vectors that are cut at the same place combine part by part, also where one of them ends
before it. -/
theorem zipInto_extract (f : α → γ → α) (size : Nat) (xs : Array α) (ys : Array γ) :
    zipInto f (xs.extract 0 size) (ys.extract 0 size) ++
        zipInto f (xs.extract size xs.size) (ys.extract size ys.size) = zipInto f xs ys := by
  refine Array.ext_getElem? fun i => ?_
  rw [Array.getElem?_append, size_zipInto, Array.size_extract]
  split
  next first =>
    rw [getElem?_zipInto, getElem?_zipInto, getElem?_head xs (by omega), getElem?_head ys (by omega)]
  next later =>
    rcases Nat.lt_or_ge size xs.size with divided | whole
    · have start : min size xs.size - 0 = size := by omega
      rw [start] at later ⊢
      rw [getElem?_zipInto, getElem?_zipInto, getElem?_tail size xs (by omega),
        getElem?_tail size ys (by omega)]
    · rw [Array.getElem?_eq_none (by simp; omega), Array.getElem?_eq_none (by simp; omega)]

theorem zipInto_empty (f : α → γ → α) (xs : Array α) : zipInto f xs #[] = xs :=
  Array.ext_getElem? fun i => by simp [getElem?_zipInto]

theorem chunks_empty (size : Nat) : chunks size (#[] : Array α) = [] := by
  rw [chunks]
  rfl

/-- Both vectors are divided by themselves, so that the chunks that meet hold the same positions. -/
theorem join_zipChunks (f : α → γ → α) (size : Nat) (xs : Array α) (ys : Array γ) :
    join (zipChunks f (chunks size xs) (chunks size ys)) = zipInto f xs ys := by
  induction length : xs.size using Nat.strongRecOn generalizing xs ys with
  | _ k ih =>
    rcases Nat.eq_zero_or_pos ys.size with noRight | right
    · rw [Array.size_eq_zero_iff.mp noRight, zipInto_empty]
      have unpaired : zipChunks f (chunks size xs) (chunks size #[]) = chunks size xs := by
        rw [chunks_empty]
        cases chunks size xs <;> rfl
      rw [unpaired, join_chunks]
    rw [chunks.eq_def size xs, chunks.eq_def size ys, dif_neg (Nat.ne_of_gt right)]
    split
    next empty =>
      rw [Array.size_eq_zero_iff.mp empty]
      simp [zipChunks, join, zipInto]
    next filled =>
      split
      next => simp [zipChunks, join]
      next divided =>
        have rest : (xs.extract size xs.size).size < k := by
          rw [Array.size_extract]
          omega
        rw [zipChunks, join_cons, ih _ rest _ _ rfl, zipInto_extract]

theorem zipWith_eq (c : Chunking) (f : α → γ → α) (xs : Array α) (ys : Array γ) :
    c.zipWith f xs ys = zipInto f xs ys := by
  unfold zipWith
  split
  · exact join_zipChunks f c.chunk xs ys
  · rfl

theorem zipInto_of_size_eq (f : α → γ → α) {xs : Array α} {ys : Array γ}
    (fits : xs.size = ys.size) : zipInto f xs ys = Array.zipWith f xs ys := by
  refine Array.ext_getElem? fun i => ?_
  rw [getElem?_zipInto, Array.getElem?_zipWith]
  rcases Nat.lt_or_ge i xs.size with inside | outside
  · have inside' : i < ys.size := fits ▸ inside
    simp [inside, inside']
  · simp [outside]

end Chunking

namespace Field

variable {x y z : Field α}

@[simp] theorem size_toArray : x.toArray.size = x.size := by cases x <;> simp [toArray, size]

theorem zipWith_of_size_eq (c : Chunking) (f : α → α → α) (fits : x.size = y.size) :
    ∃ z, zipWith c f x y = .ok z := by
  unfold zipWith
  rw [if_neg (not_not_intro fits)]
  exact ⟨_, rfl⟩

theorem zipWith_of_size_ne (c : Chunking) (f : α → α → α) (differs : x.size ≠ y.size) :
    zipWith c f x y = .error ⟨x.size, y.size⟩ := by
  unfold zipWith
  rw [if_pos differs]

theorem toArray_of_zipWith {c : Chunking} {f : α → α → α} (combined : zipWith c f x y = .ok z) :
    z.toArray = Array.zipWith f x.toArray y.toArray := by
  unfold zipWith at combined
  split at combined
  · cases combined
  next fits =>
    rw [Decidable.not_not] at fits
    cases combined
    cases y with
    | uniform b n =>
      cases x with
      | uniform a n' =>
        obtain rfl : n' = n := fits
        simp [toArray]
      | vector xs =>
        obtain rfl : xs.size = n := fits
        simp [toArray, Chunking.map_eq, Array.ext_iff]
    | vector ys =>
      have elements : c.zipWith f x.toArray ys = Array.zipWith f x.toArray ys := by
        rw [Chunking.zipWith_eq, Chunking.zipInto_of_size_eq f (size_toArray.trans fits)]
      cases x <;> exact elements

theorem toArray_of_mul [Scalar α] {c : Chunking} (product : x.mul c y = .ok z) :
    z.toArray = Array.zipWith (· * ·) x.toArray y.toArray :=
  toArray_of_zipWith product

end Field

end FiniteVolume
