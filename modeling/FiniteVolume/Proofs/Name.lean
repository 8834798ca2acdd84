import FiniteVolume.Name
import FiniteVolume.Proofs.Expression.Numerals

/-!
Taking a selector off a name undoes putting it on, and nothing else is taken for a selector.
-/
namespace FiniteVolume.Suffix

def marks : List String := ["@n0", "@n1", "@en0", "@en1", "@en2", "@en3", "@r0", "@r1"]

theorem map_text_all : all.map text = marks := by decide

theorem mem_all (s : Suffix) : s ∈ all := by
  cases s with
  | edgeEnd side => simp [all, ends, Side.mem_both]
  | elementCorner corner => simp [all, corners]
  | interfaceSide side => simp [all, sides, Side.mem_both]

theorem mem_marks_iff {mark : String} : mark ∈ marks ↔ ∃ s : Suffix, s.text = mark := by
  rw [← map_text_all, List.mem_map]
  exact ⟨fun ⟨s, _, written⟩ => ⟨s, written⟩, fun ⟨s, written⟩ => ⟨s, s.mem_all, written⟩⟩

/-! ## What a name is put together from -/

theorem plain_tag (k : Kind) (index : Nat) : '@' ∉ k.mark.toList ++ (toString index).toList := by
  rw [List.mem_append, not_or]
  refine ⟨by cases k <;> decide, fun digit => ?_⟩
  exact absurd ((Numeral.digits_repr index).1 _ digit) (by decide)

theorem splitLast_kind_apply (k : Kind) (index : Nat) (base : String) :
    splitLast (k.apply index base).toList =
      some (base.toList, k.mark.toList ++ (toString index).toList) := by
  have parts : (k.apply index base).toList =
      base.toList ++ '@' :: (k.mark.toList ++ (toString index).toList) := by
    simp [Kind.apply]
  rw [parts, splitLast_append _ (plain_tag k index)]

/-- The letters of a kind are no beginning of another's, as digits follow them. -/
theorem kind_index_inj {k k' : Kind} {index index' : Nat}
    (same : k.mark.toList ++ (toString index).toList = k'.mark.toList ++ (toString index').toList) :
    k = k' ∧ index = index' := by
  have kinds : k = k' := by
    cases k <;> cases k' <;> first | rfl | simp [Kind.mark] at same
  subst kinds
  have digits : index.repr.toList = index'.repr.toList := List.append_cancel_left same
  refine ⟨rfl, ?_⟩
  rw [← (Numeral.digits_repr index).2, digits, (Numeral.digits_repr index').2]

theorem Kind.apply_inj {k k' : Kind} {index index' : Nat} {base base' : String} :
    k.apply index base = k'.apply index' base' ↔ base = base' ∧ k = k' ∧ index = index' := by
  refine ⟨fun same => ?_, by rintro ⟨rfl, rfl, rfl⟩; rfl⟩
  have parts := (splitLast_kind_apply k index base).symm.trans
    (same ▸ splitLast_kind_apply k' index' base')
  obtain ⟨bases, tags⟩ := Prod.mk.inj (Option.some.inj parts)
  exact ⟨String.toList_inj.mp bases, kind_index_inj tags⟩

theorem apply_eq_kind_apply (s : Suffix) (base : String) :
    s.apply base = s.kind.apply s.index base := by
  simp [apply, text, tag, Kind.apply, String.append_assoc]

theorem kind_index_ext {s s' : Suffix} : s = s' ↔ s.kind = s'.kind ∧ s.index = s'.index := by
  refine ⟨by rintro rfl; exact ⟨rfl, rfl⟩, fun ⟨kinds, indices⟩ => Option.some.inj ?_⟩
  have tags : s.tag = s'.tag := by rw [tag, tag, kinds, indices]
  rw [← s.ofTag?_tag.2, tags, s'.ofTag?_tag.2]

theorem apply_inj {s s' : Suffix} {base base' : String} :
    s.apply base = s'.apply base' ↔ base = base' ∧ s = s' := by
  rw [apply_eq_kind_apply, apply_eq_kind_apply, Kind.apply_inj, kind_index_ext]

/-! ## What a name is taken apart into -/

theorem ne_empty_of_split? {name base : String} {s : Suffix}
    (split : split? name = some (base, s)) : base ≠ "" := by
  unfold split? at split
  split at split
  · cases split
  next before tail parts =>
    split at split
    · cases split
    next filled =>
      obtain ⟨found, -, same⟩ := Option.map_eq_some_iff.mp split
      obtain ⟨rfl, -⟩ := Prod.mk.inj same
      simpa using filled

theorem split?_eq_some_iff {name base : String} {s : Suffix} :
    split? name = some (base, s) ↔ base ≠ "" ∧ s.apply base = name := by
  refine ⟨fun split => ⟨ne_empty_of_split? split, apply_of_split? split⟩, ?_⟩
  rintro ⟨named, rfl⟩
  exact split?_apply s named

theorem split?_eq_none_iff {name : String} :
    split? name = none ↔ ¬∃ base mark, base ≠ "" ∧ mark ∈ marks ∧ base ++ mark = name := by
  rw [Option.eq_none_iff_forall_ne_some]
  constructor
  · rintro unsplit ⟨base, mark, named, listed, written⟩
    obtain ⟨s, rfl⟩ := mem_marks_iff.mp listed
    exact unsplit (base, s) (split?_eq_some_iff.mpr ⟨named, written⟩)
  · rintro unmarked ⟨base, s⟩ split
    obtain ⟨named, written⟩ := split?_eq_some_iff.mp split
    exact unmarked ⟨base, s.text, named, mem_marks_iff.mpr ⟨s, rfl⟩, written⟩

theorem split?_apply_eq (s : Suffix) (base : String) :
    split? (s.apply base) = if base = "" then none else some (base, s) := by
  split
  next empty =>
    rw [Option.eq_none_iff_forall_ne_some]
    rintro ⟨base', s'⟩ split
    obtain ⟨named, same⟩ := split?_eq_some_iff.mp split
    exact named ((apply_inj.mp same).1.trans empty)
  next named => exact split?_apply s named

/-- A number of several digits, or one out of range, belongs to no selector. -/
theorem split?_kind_apply {k : Kind} {index : Nat} {base base' : String} {s : Suffix} :
    split? (k.apply index base) = some (base', s) ↔
      base ≠ "" ∧ base' = base ∧ s.kind = k ∧ s.index = index := by
  rw [split?_eq_some_iff, apply_eq_kind_apply, Kind.apply_inj]
  constructor
  · rintro ⟨named, rfl, same⟩
    exact ⟨named, rfl, same⟩
  · rintro ⟨named, rfl, same⟩
    exact ⟨named, rfl, same⟩

/-- Splitting is the inverse of suffixing. A name splits into a base and a selector exactly when the
base is not empty and the name is the base followed by one of the eight selectors; base and selector
are then unique, whatever marks the base holds. Every other name is not split, among them those
that end in letters of a kind and a number that its selectors do not have. -/
theorem split_inverse_of_apply :
    (∀ name base s, split? name = some (base, s) ↔
      base ≠ "" ∧ s.text ∈ marks ∧ s.apply base = name) ∧
    (∀ s base, split? (s.apply base) = if base = "" then none else some (base, s)) ∧
    (∀ (s s' : Suffix) base base', s.apply base = s'.apply base' ↔ base = base' ∧ s = s') ∧
    (∀ name, split? name = none ↔
      ¬∃ base mark, base ≠ "" ∧ mark ∈ marks ∧ base ++ mark = name) ∧
    ∀ (k : Kind) index base base' s, split? (k.apply index base) = some (base', s) ↔
      base ≠ "" ∧ base' = base ∧ s.kind = k ∧ s.index = index := by
  refine ⟨fun name base s => ?_, split?_apply_eq, fun _ _ _ _ => apply_inj,
    fun _ => split?_eq_none_iff, fun _ _ _ _ _ => split?_kind_apply⟩
  rw [split?_eq_some_iff, and_iff_right (mem_marks_iff.mpr ⟨s, rfl⟩)]

example : split? "Jn:Potential@n0@en3" = some ("Jn:Potential@n0", .elementCorner 3) := by
  decide +kernel

example : split? "n@n10" = none := by decide +kernel

end FiniteVolume.Suffix
