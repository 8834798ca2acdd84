/-!
Tables that remember the order in which their keys came. Writing a present key keeps its position;
removing one closes the gap. Positions therefore number the keys without gaps.
-/
namespace FiniteVolume

/-- Values under distinct keys, in insertion order. -/
structure Table (κ ν : Type) where
  entries : List (κ × ν)
  nodup : (entries.map Prod.fst).Nodup

namespace Table

variable {κ ν : Type} [DecidableEq κ]

def empty : Table κ ν := ⟨[], List.nodup_nil⟩

instance : EmptyCollection (Table κ ν) := ⟨empty⟩

instance : Inhabited (Table κ ν) := ⟨empty⟩

def keys (t : Table κ ν) : List κ := t.entries.map Prod.fst

def values (t : Table κ ν) : List ν := t.entries.map Prod.snd

def size (t : Table κ ν) : Nat := t.entries.length

def get? (t : Table κ ν) (k : κ) : Option ν := t.entries.lookup k

def contains (t : Table κ ν) (k : κ) : Bool := (t.get? k).isSome

def position? (t : Table κ ν) (k : κ) : Option Nat := t.keys.idxOf? k

def modify (t : Table κ ν) (k : κ) (f : ν → ν) : Table κ ν where
  entries := t.entries.map fun e => if e.1 = k then (e.1, f e.2) else e
  nodup := by
    have same : (t.entries.map fun e => if e.1 = k then (e.1, f e.2) else e).map Prod.fst
        = t.entries.map Prod.fst := by
      simp only [List.map_map]
      apply List.map_congr_left
      intro e _
      by_cases h : e.1 = k <;> simp [h]
    exact same ▸ t.nodup

def mapEntries (t : Table κ ν) (f : κ → ν → ν) : Table κ ν where
  entries := t.entries.map fun e => (e.1, f e.1 e.2)
  nodup := by
    have same : (t.entries.map fun e => (e.1, f e.1 e.2)).map Prod.fst = t.entries.map Prod.fst := by
      simp [List.map_map, Function.comp_def]
    exact same ▸ t.nodup

/-- Write a value under a key, at the end for a new key. -/
def insert (t : Table κ ν) (k : κ) (v : ν) : Table κ ν :=
  if h : k ∈ t.entries.map Prod.fst then t.modify k fun _ => v
  else ⟨t.entries ++ [(k, v)], by
    rw [List.map_append, List.nodup_append]
    refine ⟨t.nodup, by simp, ?_⟩
    intro a ha b hb
    simp only [List.map_cons, List.map_nil, List.mem_singleton] at hb
    subst hb
    exact fun same => h (same ▸ ha)⟩

def erase (t : Table κ ν) (k : κ) : Table κ ν where
  entries := t.entries.filter (·.1 ≠ k)
  nodup := t.nodup.sublist (List.filter_sublist.map _)

def toList (t : Table κ ν) : List (κ × ν) := t.entries

def isEmpty (t : Table κ ν) : Bool := t.entries.isEmpty

omit [DecidableEq κ] in
@[simp] theorem keys_empty : (empty : Table κ ν).keys = [] := rfl

@[simp] theorem keys_modify (t : Table κ ν) (k : κ) (f : ν → ν) : (t.modify k f).keys = t.keys := by
  simp only [keys, modify, List.map_map]
  apply List.map_congr_left
  intro e _
  by_cases h : e.1 = k <;> simp [h]

theorem keys_insert (t : Table κ ν) (k : κ) (v : ν) :
    (t.insert k v).keys = if k ∈ t.keys then t.keys else t.keys ++ [k] := by
  unfold insert
  by_cases h : k ∈ t.entries.map Prod.fst
  · rw [dif_pos h, keys_modify, if_pos (show k ∈ t.keys from h)]
  · rw [dif_neg h, if_neg (show k ∉ t.keys from h)]
    simp [keys]

theorem keys_erase (t : Table κ ν) (k : κ) : (t.erase k).keys = t.keys.filter (· ≠ k) := by
  simp [keys, erase, List.filter_map, Function.comp_def]

omit [DecidableEq κ] in
@[simp] theorem keys_mapEntries (t : Table κ ν) (f : κ → ν → ν) : (t.mapEntries f).keys = t.keys := by
  simp [keys, mapEntries, List.map_map, Function.comp_def]

omit [DecidableEq κ] in
theorem length_keys (t : Table κ ν) : t.keys.length = t.size := by
  simp [keys, size]

omit [DecidableEq κ] in
theorem ext_entries {t t' : Table κ ν} (same : t.entries = t'.entries) : t = t' := by
  cases t
  cases t'
  cases same
  rfl

theorem position?_eq_some_iff {t : Table κ ν} {k : κ} {i : Nat} :
    t.position? k = some i ↔ t.keys[i]? = some k := by
  rw [position?, List.idxOf?_eq_some_iff, List.getElem?_eq_some_iff]
  constructor
  · rintro ⟨bound, here, -⟩
    exact ⟨bound, here⟩
  · rintro ⟨bound, here⟩
    refine ⟨bound, here, fun j below there => ?_⟩
    exact List.pairwise_iff_getElem.mp t.nodup j i _ bound below (there.trans here.symm)

/-! ## Values under keys -/

theorem get?_eq_some_iff {t : Table κ ν} {k : κ} {v : ν} : t.get? k = some v ↔ (k, v) ∈ t.entries := by
  obtain ⟨entries, nodup⟩ := t
  simp only [get?]
  induction entries with
  | nil => simp
  | cons e rest ih =>
    obtain ⟨k', v'⟩ := e
    simp only [List.map_cons, List.nodup_cons] at nodup
    by_cases same : k = k'
    · subst same
      have absent : (k, v) ∉ rest := fun member => nodup.1 (List.mem_map.mpr ⟨(k, v), member, rfl⟩)
      simp [absent, eq_comm]
    · rw [List.lookup_cons, beq_eq_false_iff_ne.mpr same]
      simp [ih nodup.2, same]

theorem get?_eq_none_iff {t : Table κ ν} {k : κ} : t.get? k = none ↔ k ∉ t.keys := by
  rw [Option.eq_none_iff_forall_ne_some]
  simp only [ne_eq, get?_eq_some_iff, keys, List.mem_map, Prod.exists, exists_and_right,
    exists_eq_right, not_exists]

theorem contains_iff {t : Table κ ν} {k : κ} : t.contains k = true ↔ k ∈ t.keys := by
  rw [contains, Option.isSome_iff_ne_none, ne_eq, get?_eq_none_iff, Decidable.not_not]

theorem modify_eq_self {t : Table κ ν} {k : κ} {v : ν} (found : t.get? k = some v) :
    (t.modify k fun _ => v) = t := by
  apply ext_entries
  refine (List.map_congr_left fun e member => ?_).trans (List.map_id _)
  by_cases here : e.1 = k
  · have same := get?_eq_some_iff.mpr (here ▸ member : (k, e.2) ∈ t.entries)
    rw [if_pos here, Option.some.inj (found.symm.trans same)]
    rfl
  · exact if_neg here

theorem get?_modify (t : Table κ ν) (k k' : κ) (f : ν → ν) :
    (t.modify k f).get? k' = if k' = k then (t.get? k').map f else t.get? k' := by
  apply Option.ext
  intro v
  split
  next same =>
    subst same
    simp only [Option.map_eq_some_iff, get?_eq_some_iff, modify, List.mem_map, Prod.exists]
    constructor
    · rintro ⟨k, v₀, member, equal⟩
      by_cases here : k = k'
      · subst here
        simp only [if_true, Prod.mk.injEq, true_and] at equal
        exact ⟨v₀, member, equal⟩
      · simp only [here, if_false, Prod.mk.injEq, false_and] at equal
    · rintro ⟨v₀, member, rfl⟩
      exact ⟨k', v₀, member, by simp⟩
  next apart =>
    simp only [get?_eq_some_iff, modify, List.mem_map, Prod.exists]
    constructor
    · rintro ⟨k₀, v₀, member, equal⟩
      split at equal
      next here => exact absurd ((Prod.mk.inj equal).1.symm.trans here) apart
      · exact equal ▸ member
    · intro member
      exact ⟨k', v, member, by simp [apart]⟩

theorem get?_mapEntries (t : Table κ ν) (f : κ → ν → ν) (k : κ) :
    (t.mapEntries f).get? k = (t.get? k).map (f k) := by
  apply Option.ext
  intro v
  simp only [Option.map_eq_some_iff, get?_eq_some_iff, mapEntries, List.mem_map, Prod.exists,
    Prod.mk.injEq]
  constructor
  · rintro ⟨k₀, v₀, member, rfl, rfl⟩
    exact ⟨v₀, member, rfl⟩
  · rintro ⟨v₀, member, rfl⟩
    exact ⟨k, v₀, member, rfl, rfl⟩

theorem get?_insert (t : Table κ ν) (k k' : κ) (v : ν) :
    (t.insert k v).get? k' = if k' = k then some v else t.get? k' := by
  unfold insert
  split
  next present =>
    rw [get?_modify]
    split
    next same =>
      obtain ⟨v', found⟩ := Option.isSome_iff_exists.mp
        (contains_iff.mpr (show k ∈ t.keys from present))
      simp [same, found]
    · rfl
  next absent =>
    have missing : t.get? k = none := get?_eq_none_iff.mpr absent
    simp only [get?] at missing ⊢
    rw [List.lookup_append]
    split
    next same =>
      subst same
      simp [missing]
    next apart => simp [List.lookup_cons, beq_eq_false_iff_ne.mpr apart]

theorem insert_eq_self {t : Table κ ν} {k : κ} {v : ν} (found : t.get? k = some v) :
    t.insert k v = t := by
  have present : k ∈ t.keys := contains_iff.mp (by rw [contains, found, Option.isSome_some])
  exact (dif_pos present).trans (modify_eq_self found)

theorem get?_erase (t : Table κ ν) (k k' : κ) :
    (t.erase k).get? k' = if k' = k then none else t.get? k' := by
  split
  next same => simp [get?_eq_none_iff, keys_erase, same]
  next apart =>
    apply Option.ext
    intro v
    simp [get?_eq_some_iff, erase, apart]

end Table

end FiniteVolume
