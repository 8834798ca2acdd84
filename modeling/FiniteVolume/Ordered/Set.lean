/-!
Finite sets that remember the order in which their elements came. Adding a present element changes
nothing; removing one closes the gap.
-/
namespace FiniteVolume

structure OrderedSet (κ : Type) where
  elems : List κ
  nodup : elems.Nodup

namespace OrderedSet

variable {κ : Type} [DecidableEq κ]

def empty : OrderedSet κ := ⟨[], List.nodup_nil⟩

instance : EmptyCollection (OrderedSet κ) := ⟨empty⟩

instance : Inhabited (OrderedSet κ) := ⟨empty⟩

instance : Membership κ (OrderedSet κ) := ⟨fun s x => x ∈ s.elems⟩

instance (x : κ) (s : OrderedSet κ) : Decidable (x ∈ s) := inferInstanceAs (Decidable (x ∈ s.elems))

def insert (s : OrderedSet κ) (x : κ) : OrderedSet κ :=
  if h : x ∈ s.elems then s
  else ⟨s.elems ++ [x], by
    rw [List.nodup_append]
    refine ⟨s.nodup, by simp, ?_⟩
    intro a ha b hb
    simp only [List.mem_singleton] at hb
    subst hb
    exact fun same => h (same ▸ ha)⟩

def insertAll (s : OrderedSet κ) (xs : List κ) : OrderedSet κ := xs.foldl insert s

def ofList (xs : List κ) : OrderedSet κ := empty.insertAll xs

def erase (s : OrderedSet κ) (x : κ) : OrderedSet κ :=
  ⟨s.elems.filter (· ≠ x), s.nodup.filter _⟩

def isEmpty (s : OrderedSet κ) : Bool := s.elems.isEmpty

def size (s : OrderedSet κ) : Nat := s.elems.length

/-- Position of an element, the size of the set for an absent one. -/
def position (s : OrderedSet κ) (x : κ) : Nat := s.elems.idxOf x

omit [DecidableEq κ] in
@[simp] theorem mem_iff {s : OrderedSet κ} {x : κ} : x ∈ s ↔ x ∈ s.elems := Iff.rfl

omit [DecidableEq κ] in
@[simp] theorem elems_empty : (empty : OrderedSet κ).elems = [] := rfl

omit [DecidableEq κ] in
@[simp] theorem elems_emptyCollection : (∅ : OrderedSet κ).elems = [] := rfl

theorem elems_insert (s : OrderedSet κ) (x : κ) :
    (s.insert x).elems = if x ∈ s.elems then s.elems else s.elems ++ [x] := by
  unfold insert
  split <;> rfl

theorem insert_of_mem {s : OrderedSet κ} {x : κ} (member : x ∈ s.elems) : s.insert x = s :=
  dif_pos member

@[simp] theorem elems_erase (s : OrderedSet κ) (x : κ) :
    (s.erase x).elems = s.elems.filter (· ≠ x) := rfl

theorem mem_elems_insert {s : OrderedSet κ} {x y : κ} :
    y ∈ (s.insert x).elems ↔ y = x ∨ y ∈ s.elems := by
  rw [elems_insert]
  split
  next present =>
    refine ⟨.inr, ?_⟩
    rintro (rfl | member)
    · exact present
    · exact member
  next absent => simp [or_comm]

theorem mem_elems_insertAll {s : OrderedSet κ} {xs : List κ} {y : κ} :
    y ∈ (s.insertAll xs).elems ↔ y ∈ s.elems ∨ y ∈ xs := by
  induction xs generalizing s with
  | nil => simp [insertAll]
  | cons x rest ih =>
    have step : s.insertAll (x :: rest) = (s.insert x).insertAll rest := rfl
    rw [step, ih, mem_elems_insert, List.mem_cons, or_assoc, or_left_comm]

theorem mem_elems_ofList {xs : List κ} {y : κ} : y ∈ (ofList xs).elems ↔ y ∈ xs := by
  simp [ofList, mem_elems_insertAll]

/-- Inserting only appends: what is present keeps its position. -/
theorem elems_prefix_insertAll (s : OrderedSet κ) (xs : List κ) :
    s.elems <+: (s.insertAll xs).elems := by
  induction xs generalizing s with
  | nil => exact List.prefix_refl _
  | cons x rest ih =>
    refine List.IsPrefix.trans ?_ (ih (s.insert x))
    rw [elems_insert]
    split
    · exact List.prefix_refl _
    · exact List.prefix_append ..

end OrderedSet

end FiniteVolume
