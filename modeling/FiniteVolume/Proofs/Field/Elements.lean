import FiniteVolume.Expression.Value
import FiniteVolume.Proofs.Field.Elementwise

/-!
Fields element by element: what an operation gives at an element depends on its operands at that
element only. Gathering commutes with every operation.
-/
namespace FiniteVolume

variable {α : Type} {x y z : Field α}

namespace Field

theorem get?_eq (x : Field α) (i : Nat) : x.get? i = x.toArray[i]? := by
  cases x <;> simp [get?, toArray, Array.getElem?_replicate]

theorem get?_eq_none (x : Field α) {i : Nat} (outside : x.size ≤ i) : x.get? i = none := by
  rw [get?_eq, Array.getElem?_eq_none (by rwa [size_toArray])]

@[simp] theorem size_map (c : Chunking) (f : α → α) (x : Field α) : (x.map c f).size = x.size := by
  cases x <;> simp [map, size, Chunking.map_eq]

theorem get?_map (c : Chunking) (f : α → α) (x : Field α) (i : Nat) :
    (x.map c f).get? i = (x.get? i).map f := by
  cases x with
  | uniform a n =>
    simp only [map, get?]
    split <;> rfl
  | vector xs => simp [map, get?, Chunking.map_eq]

theorem size_zipWith {c : Chunking} {f : α → α → α} (combined : zipWith c f x y = .ok z) :
    z.size = x.size ∧ x.size = y.size := by
  have elements := congrArg Array.size (toArray_of_zipWith combined)
  unfold zipWith at combined
  split at combined
  · cases combined
  next fits =>
    rw [Decidable.not_not] at fits
    rw [Array.size_zipWith, size_toArray, size_toArray, size_toArray, ← fits, Nat.min_self] at elements
    exact ⟨elements, fits⟩

theorem get?_zipWith {c : Chunking} {f : α → α → α} (combined : zipWith c f x y = .ok z) (i : Nat) :
    z.get? i = (x.get? i).bind fun a => (y.get? i).map (f a) := by
  rw [get?_eq, toArray_of_zipWith combined, Array.getElem?_zipWith, get?_eq, get?_eq]
  cases x.toArray[i]? <;> cases y.toArray[i]? <;> rfl

section

variable [Scalar α]

@[simp] theorem size_gather (c : Chunking) (x : Field α) (index : Array Nat) :
    (x.gather c index).size = index.size := by
  cases x <;> simp [gather, size, Chunking.gather, Chunking.map_eq]

omit [Scalar α] in
theorem gather_eq (c : Chunking) (fallback : α) (xs : Array α) (index : Array Nat) :
    c.gather fallback xs index = index.map fun i => xs[i]?.getD fallback := by
  rw [Chunking.gather, Chunking.map_eq]

/-- Positions that exist are read; others would give zero. -/
theorem get?_gather (c : Chunking) (x : Field α) {index : Array Nat}
    (inside : ∀ j ∈ index, j < x.size) (i : Nat) :
    (x.gather c index).get? i = index[i]?.bind x.get? := by
  cases found : index[i]? with
  | none =>
    exact get?_eq_none _ (by rw [size_gather]; exact Array.getElem?_eq_none_iff.mp found)
  | some j =>
    have bound := inside j (Array.mem_of_getElem? found)
    obtain ⟨position, -⟩ := Array.getElem?_eq_some_iff.mp found
    cases x with
    | uniform a n =>
      have bound' : j < n := bound
      simp [gather, get?, position, bound']
    | vector xs =>
      have bound' : j < xs.size := bound
      simp [gather, get?, gather_eq, found, bound']

omit [Scalar α] in
/-- Copying an element onto a vector of the field's length sets it. -/
theorem getElem?_copy (x : Field α) {out : Array α} (fits : out.size = x.size) (i j : Nat) :
    ((x.get? i).elim out (out.setIfInBounds i ·))[j]? =
      if j = i then x.toArray[i]? else out[j]? := by
  rw [get?_eq]
  rcases Nat.lt_or_ge i x.toArray.size with inside | outside
  · have position : i < out.size := by rwa [fits, ← size_toArray]
    rw [Array.getElem?_eq_getElem inside, Option.elim_some, Array.getElem?_setIfInBounds]
    by_cases here : j = i
    · simp [here, position]
    · simp [here, Ne.symm here]
  · rw [Array.getElem?_eq_none outside, Option.elim_none]
    split
    next here => rw [here, Array.getElem?_eq_none (by rwa [fits, ← size_toArray])]
    · rfl

/-- The listed elements are kept and the others are zero. -/
theorem toArray_restrict (x : Field α) (keep : List Nat) :
    (x.restrict keep).toArray = x.toArray.mapIdx fun i a => if i ∈ keep then a else 0 := by
  have copied : ∀ (out : Array α), out.size = x.size → ∀ i,
      (keep.foldl (fun out j => (x.get? j).elim out (out.setIfInBounds j ·)) out)[i]? =
        if i ∈ keep then x.toArray[i]? else out[i]? := by
    induction keep with
    | nil => simp
    | cons j keep ih =>
      intro out fits i
      have still : ((x.get? j).elim out (out.setIfInBounds j ·)).size = x.size := by
        cases x.get? j <;> simp [fits]
      rw [List.foldl_cons, ih _ still, getElem?_copy x fits]
      by_cases first : i = j <;> by_cases later : i ∈ keep <;> simp [first, later]
  refine Array.ext_getElem? fun i => ?_
  rw [restrict, toArray, copied _ (by simp), Array.getElem?_mapIdx]
  rcases Nat.lt_or_ge i x.toArray.size with inside | outside
  · have position : i < x.size := by rwa [← size_toArray]
    simp only [Array.getElem?_eq_getElem inside, Option.map_some, Array.getElem?_replicate, position]
    split <;> rfl
  · have position : ¬i < x.size := by rwa [← size_toArray, Nat.not_lt]
    simp [position]

@[simp] theorem size_restrict (x : Field α) (keep : List Nat) : (x.restrict keep).size = x.size := by
  rw [← size_toArray, toArray_restrict, Array.size_mapIdx, size_toArray]

section

variable (c : Chunking) {index : Array Nat}

theorem gather_map (f : α → α) (x : Field α) (inside : ∀ j ∈ index, j < x.size) :
    (x.map c f).gather c index = (x.gather c index).map c f := by
  cases x with
  | uniform a n => rfl
  | vector xs =>
    simp only [gather, map, gather_eq, Chunking.map_eq, Array.map_map]
    refine congrArg vector (Array.map_congr_left fun j member => ?_)
    have bound : j < xs.size := inside j member
    simp [bound]

/-- Values gathered twice are gathered at the positions that the second index names in the first. -/
theorem gather_gather (x : Field α) {inner : Array Nat} (inside : ∀ j ∈ index, j < inner.size) :
    (x.gather c inner).gather c index = x.gather c (index.map fun j => inner[j]?.getD 0) := by
  cases x with
  | uniform a n => simp [gather]
  | vector xs =>
    simp only [gather, gather_eq, Array.map_map]
    refine congrArg vector (Array.map_congr_left fun j member => ?_)
    simp [inside j member]

theorem isFinite_gather (x : Field α) (inside : ∀ j ∈ index, j < x.size)
    (finite : x.isFinite = true) : (x.gather c index).isFinite = true := by
  cases x with
  | uniform a n => exact finite
  | vector xs =>
    simp only [isFinite, gather, gather_eq, Array.all_map, Array.all_eq_true'] at finite ⊢
    intro j member
    have bound : j < xs.size := inside j member
    simpa [bound] using finite _ (Array.getElem_mem bound)

theorem toArray_gather (x : Field α) (inside : ∀ j ∈ index, j < x.size) :
    (x.gather c index).toArray = index.map fun j => x.toArray[j]?.getD 0 := by
  cases x with
  | uniform a n =>
    simp only [gather, toArray]
    refine Array.ext (by simp) fun i left right => ?_
    have within : i < index.size := by simpa using left
    have bound : index[i] < n := inside _ (Array.getElem_mem within)
    simp [bound]
  | vector xs => exact gather_eq c 0 xs index

omit [Scalar α] in
theorem map_zipWith_getD {γ δ : Type} (f : α → γ → δ) {xs : Array α} {ys : Array γ} (a : α) (b : γ)
    (d : δ) (insideX : ∀ j ∈ index, j < xs.size) (insideY : ∀ j ∈ index, j < ys.size) :
    (index.map fun j => (Array.zipWith f xs ys)[j]?.getD d) =
      Array.zipWith f (index.map fun j => xs[j]?.getD a) (index.map fun j => ys[j]?.getD b) := by
  rw [Array.zipWith_map, Array.zipWith_self]
  refine Array.map_congr_left fun j member => ?_
  rw [Array.getElem?_zipWith, Array.getElem?_eq_getElem (insideX j member),
    Array.getElem?_eq_getElem (insideY j member)]
  rfl

/-- Shared values stay shared, so that gathering before or after gives the same field. -/
theorem zipWith_gather {f : α → α → α} (combined : zipWith c f x y = .ok z)
    (inside : ∀ j ∈ index, j < x.size) :
    zipWith c f (x.gather c index) (y.gather c index) = .ok (z.gather c index) := by
  have sizes := (size_zipWith combined).2
  unfold zipWith at combined ⊢
  rw [if_neg (not_not_intro sizes)] at combined
  rw [if_neg (by simp)]
  cases combined
  refine congrArg Except.ok ?_
  cases y with
  | uniform b m =>
    cases x with
    | uniform a n => rfl
    | vector xs => exact (gather_map c (f · b) (vector xs) inside).symm
  | vector ys =>
    have insideY : ∀ j ∈ index, j < (vector ys).size := sizes ▸ inside
    have elements : c.zipWith f (x.gather c index).toArray (c.gather 0 ys index) =
        c.gather 0 (c.zipWith f x.toArray ys) index := by
      have fits : x.toArray.size = ys.size := size_toArray.trans sizes
      rw [Chunking.zipWith_eq, Chunking.zipWith_eq, Chunking.zipInto_of_size_eq f fits,
        Chunking.zipInto_of_size_eq f (by simp [gather_eq]), toArray_gather c x inside, gather_eq,
        gather_eq, map_zipWith_getD f 0 0 0 (by simpa using inside) insideY]
    cases x <;> exact congrArg vector elements

end

end

end Field

namespace Value

open FiniteVolume.Field

variable [Scalar α] (c : Chunking) (f : α → α → α → α)

theorem toArray_zipWith3 (xy : x.size = y.size) (xz : x.size = z.size) :
    (zipWith3 c f x y z).toArray =
      Array.zipWith (fun g a => g a) (Array.zipWith f x.toArray y.toArray) z.toArray := by
  unfold zipWith3
  split
  · rename_i a n b m d k
    obtain rfl : n = m := xy
    obtain rfl : n = k := xz
    simp [toArray]
  · rw [← size_toArray, ← size_toArray (x := y)] at xy
    rw [← size_toArray, ← size_toArray (x := z)] at xz
    simp only [Chunking.map_eq]
    generalize x.toArray = xs, y.toArray = ys, z.toArray = zs at xy xz
    refine Array.ext (by simp [toArray, ← xy, ← xz]) fun i inside _ => ?_
    have insideX : i < xs.size := by simpa [toArray] using inside
    have insideY : i < ys.size := xy ▸ insideX
    have insideZ : i < zs.size := xz ▸ insideX
    simp [toArray, insideX, insideY, insideZ]

theorem size_zipWith3 (xy : x.size = y.size) (xz : x.size = z.size) :
    (zipWith3 c f x y z).size = x.size := by
  rw [← size_toArray, toArray_zipWith3 c f xy xz]
  simp [← xy, ← xz]

theorem get?_zipWith3 (xy : x.size = y.size) (xz : x.size = z.size) (i : Nat) :
    (zipWith3 c f x y z).get? i =
      (x.get? i).bind fun a => (y.get? i).bind fun b => (z.get? i).map (f a b) := by
  simp only [get?_eq, toArray_zipWith3 c f xy xz, Array.getElem?_zipWith]
  cases x.toArray[i]? <;> cases y.toArray[i]? <;> cases z.toArray[i]? <;> rfl

theorem zipWith3_gather {index : Array Nat} (xy : x.size = y.size)
    (xz : x.size = z.size) (inside : ∀ j ∈ index, j < x.size) :
    zipWith3 c f (x.gather c index) (y.gather c index) (z.gather c index) =
      (zipWith3 c f x y z).gather c index := by
  have elements : (zipWith3 c f (x.gather c index) (y.gather c index) (z.gather c index)).toArray =
      ((zipWith3 c f x y z).gather c index).toArray := by
    have bounds : ∀ j ∈ index, j < (zipWith3 c f x y z).size := by
      rwa [size_zipWith3 c f xy xz]
    have insideX : ∀ j ∈ index, j < x.toArray.size := by simpa using inside
    have insideY : ∀ j ∈ index, j < y.toArray.size := by simpa [← xy] using inside
    have insideZ : ∀ j ∈ index, j < z.toArray.size := by simpa [← xz] using inside
    have insideXY : ∀ j ∈ index, j < (Array.zipWith f x.toArray y.toArray).size := by
      simpa [← xy] using inside
    rw [toArray_gather c _ bounds, toArray_zipWith3 c f (by simp) (by simp),
      toArray_zipWith3 c f xy xz, toArray_gather c x inside, toArray_gather c y (xy ▸ inside),
      toArray_gather c z (xz ▸ inside), map_zipWith_getD (fun g a => g a) (f 0 0) 0 0 insideXY insideZ,
      map_zipWith_getD f 0 0 (f 0 0) insideX insideY]
  cases x <;> cases y <;> cases z <;> first | rfl | exact congrArg vector elements

end Value

end FiniteVolume
