import FiniteVolume.Model.Store
import FiniteVolume.Proofs.Dependencies

/-!
The effect of every operation of a store, as an equation for the models under each domain and name.

A change of a name replaces at most the model it is about; every other model is kept, or outdated
where the wave of the name reaches it.
-/
namespace FiniteVolume

variable {β α : Type}

namespace Model

@[simp] theorem source_outdate (m : Model β α) : m.outdate.source = m.source := by
  unfold outdate
  split <;> rfl

@[simp] theorem contact_outdate (m : Model β α) : m.outdate.contact = m.contact := by
  unfold outdate
  split <;> rfl

theorem outdate_of_written {m : Model β α} (written : m.source = .written) : m.outdate = m := by
  simp [outdate, isComputed, written]

theorem isComputed_iff {m : Model β α} :
    m.isComputed = true ↔ ∃ calculator, m.source = .computed calculator := by
  unfold isComputed
  cases m.source <;> simp

theorem state_outdate_ne_fresh {m : Model β α} (computed : m.isComputed = true) :
    m.outdate.state ≠ .fresh := by
  unfold outdate
  split
  · simp
  next other => exact fun fresh => other ⟨computed, fresh⟩

theorem state_outdate_eq_computing_iff {m : Model β α} :
    m.outdate.state = .computing ↔ m.state = .computing := by
  unfold outdate
  split
  next h => simp [h.2]
  · rfl

theorem outdate_of_fresh {m : Model β α} (fresh : m.outdate.state = .fresh) : m.outdate = m := by
  unfold outdate at fresh ⊢
  split at fresh
  · cases fresh
  next other => rw [if_neg other]

@[simp] theorem outdate_outdate (m : Model β α) : m.outdate.outdate = m.outdate := by
  by_cases outdated : m.isComputed = true ∧ m.state = .fresh
  · simp [outdate, outdated]
  · simp [outdate, outdated]

def outdateIf (condition : Prop) [Decidable condition] (m : Model β α) : Model β α :=
  if condition then m.outdate else m

section

variable {m : Model β α} {condition : Prop} [Decidable condition]

theorem outdateIf_outdateIf {other : Prop} [Decidable other] :
    (m.outdateIf condition).outdateIf other = m.outdateIf (condition ∨ other) := by
  unfold outdateIf
  by_cases first : condition <;> by_cases second : other <;> simp [first, second]

theorem outdateIf_of_fresh (fresh : (m.outdateIf condition).state = .fresh) :
    m.outdateIf condition = m := by
  unfold outdateIf at fresh ⊢
  split at fresh
  next holds =>
    rw [if_pos holds]
    exact outdate_of_fresh fresh
  next fails => rw [if_neg fails]

@[simp] theorem source_outdateIf (m : Model β α) : (m.outdateIf condition).source = m.source := by
  unfold outdateIf
  split
  · exact source_outdate m
  · rfl

theorem state_outdateIf_eq_computing_iff :
    (m.outdateIf condition).state = .computing ↔ m.state = .computing := by
  unfold outdateIf
  split
  · exact state_outdate_eq_computing_iff
  · rfl

theorem not_of_outdateIf_fresh (computed : m.isComputed = true)
    (fresh : (m.outdateIf condition).state = .fresh) : ¬condition := by
  intro holds
  rw [outdateIf, if_pos holds] at fresh
  exact state_outdate_ne_fresh computed fresh

end

end Model

namespace ModelStore

variable {s : ModelStore β α} {d d' : Domain} {name name' : String} {m : Model β α}

theorem contains_iff : s.contains d name = true ↔ ∃ m, s.get? d name = some m := by
  rw [contains, Table.contains, Option.isSome_iff_exists]
  rfl

theorem get?_outdate (names : List String) :
    (s.outdate names).get? d name = (s.get? d name).map (·.outdateIf (name ∈ names)) := by
  rw [get?, outdate, Table.get?_mapEntries]
  rfl

theorem get?_outdateDependents (source : String) :
    (s.outdateDependents source).get? d name =
      (s.get? d name).map (·.outdateIf (name ∈ s.dependencies.wave source)) :=
  get?_outdate _

@[simp] theorem dependencies_markOld : (s.markOld name).dependencies = s.dependencies := rfl

theorem get?_markOld :
    (s.markOld name').get? d name = (s.get? d name).map
      (·.outdateIf (name = name' ∨ name ∈ s.dependencies.wave name')) := by
  rw [markOld, get?_outdateDependents, get?_outdate, Option.map_map]
  congr 1
  funext m
  simp only [Function.comp_apply, Model.outdateIf_outdateIf, List.mem_singleton]
  rfl

theorem contains_markOld : (s.markOld name').contains d name = s.contains d name := by
  change ((s.markOld name').get? d name).isSome = (s.get? d name).isSome
  rw [get?_markOld, Option.isSome_map]

theorem get?_write (data : Field α) :
    (s.write d' name' data).get? d name =
      if (d, name) = (d', name') then
        some { source := .written, state := .fresh, value := some data,
               display := s.displayOf d' name' }
      else (s.get? d name).map
        (·.outdateIf (name ∈ (s.dependencies.unregister name').wave name')) := by
  rw [write, get?_outdateDependents, get?, Table.get?_insert]
  split
  · simp [Model.outdateIf, Model.outdate_of_written]
  · rfl

theorem contains_write {data : Field α} :
    (s.write d' name' data).contains d name = true ↔
      (d, name) = (d', name') ∨ s.contains d name = true := by
  change ((s.write d' name' data).get? d name).isSome = true ↔ _ ∨ (s.get? d name).isSome = true
  rw [get?_write]
  split
  next same => simp [same]
  next other => rw [Option.isSome_map, or_iff_right other]

@[simp] theorem dependencies_declare (calculator : Calculator β α) (contact : Option String) :
    (s.declare d name calculator contact).dependencies =
      calculator.dependencies.foldl (·.register name ·) (s.dependencies.unregister name) := rfl

theorem get?_declare (calculator : Calculator β α) (contact : Option String) :
    (s.declare d' name' calculator contact).get? d name =
      if (d, name) = (d', name') then
        some { source := .computed calculator, state := .stale, value := none,
               display := s.displayOf d' name', contact }
      else (s.get? d name).map
        (·.outdateIf (name ∈ (calculator.dependencies.foldl (·.register name' ·)
          (s.dependencies.unregister name')).wave name')) := by
  rw [declare, get?_outdateDependents, get?, Table.get?_insert]
  split
  · simp [Model.outdateIf, Model.outdate]
  · rfl

theorem contains_declare {calculator : Calculator β α} {contact : Option String} :
    (s.declare d' name' calculator contact).contains d name = true ↔
      (d, name) = (d', name') ∨ s.contains d name = true := by
  change ((s.declare d' name' calculator contact).get? d name).isSome = true ↔
    _ ∨ (s.get? d name).isSome = true
  rw [get?_declare]
  split
  next same => simp [same]
  next other => rw [Option.isSome_map, or_iff_right other]

theorem dependencies_remove : (s.remove d name).dependencies =
    if s.contains d name then s.dependencies.unregister name else s.dependencies := by
  unfold remove
  split <;> rfl

theorem get?_remove (present : s.contains d' name' = true) :
    (s.remove d' name').get? d name =
      if (d, name) = (d', name') then none
      else (s.get? d name).map
        (·.outdateIf (name ∈ (s.dependencies.unregister name').wave name')) := by
  rw [remove, if_pos present, get?_outdateDependents, get?, Table.get?_erase]
  split <;> rfl

theorem remove_of_absent (absent : s.contains d name = false) : s.remove d name = s := by
  simp [remove, absent]

theorem contains_of_contains_remove (present : (s.remove d' name').contains d name = true) :
    s.contains d name = true := by
  cases removed : s.contains d' name' with
  | false => rwa [remove_of_absent removed] at present
  | true =>
    obtain ⟨m, found⟩ := contains_iff.mp present
    rw [get?_remove removed] at found
    split at found
    · cases found
    · obtain ⟨m', before, -⟩ := Option.map_eq_some_iff.mp found
      exact contains_iff.mpr ⟨m', before⟩

theorem get?_setDisplay (display : DisplayType) :
    (s.setDisplay d' name' display).get? d name =
      if (d, name) = (d', name') then (s.get? d name).map fun m => { m with display }
      else s.get? d name := by
  rw [get?, setDisplay, Table.get?_modify]
  rfl

theorem contains_setDisplay (display : DisplayType) :
    (s.setDisplay d name display).contains = s.contains := by
  funext d' name'
  change ((s.setDisplay d name display).get? d' name').isSome = (s.get? d' name').isSome
  rw [get?_setDisplay]
  split
  · exact Option.isSome_map
  · rfl

theorem get?_replace :
    (s.replace d' name' m).get? d name =
      if (d, name) = (d', name') then (s.get? d name).map fun _ => m else s.get? d name := by
  rw [get?, replace, Table.get?_modify]
  rfl

/-! ## The four ways a read begins -/

variable {size : Nat}

theorem begin_of_missing (missing : s.get? d name = none) :
    s.begin d name size = (.error (.missingModel d name), s) := by
  simp [begin, missing]

theorem begin_of_computing (found : s.get? d name = some m) (computing : m.state = .computing) :
    s.begin d name size = (.error (.cyclicDependency name), s) := by
  simp [begin, found, computing]

theorem begin_of_fresh (found : s.get? d name = some m) (fresh : m.state = .fresh)
    {data : Field α} (value : m.value = some data) :
    s.begin d name size = (.ok (.ready data), s) := by
  cases h : m.source <;> simp [begin, found, fresh, value, h]

theorem begin_of_stale (found : s.get? d name = some m) (stale : m.state = .stale)
    {calculator : Calculator β α} (computed : m.source = .computed calculator) :
    s.begin d name size = (.ok (.compute calculator ⟨name, d, size, m.contact⟩),
      s.replace d name { m with state := .computing }) := by
  simp [begin, found, stale, computed]

/-! ## Models that no computation has reached -/

/-- Number of models that are not being computed. -/
def waiting (s : ModelStore β α) : Nat :=
  (s.models.keys.filter fun key => s.state? key.1 key.2 ≠ some .computing).length

theorem waiting_le_size (s : ModelStore β α) : s.waiting ≤ s.models.size := by
  rw [← Table.length_keys]
  exact List.length_filter_le _ _

theorem waiting_marked_lt (found : s.get? d name = some m) (stale : m.state = .stale) :
    (s.replace d name { m with state := .computing }).waiting < s.waiting := by
  have key : (d, name) ∈ s.models.keys := by
    rw [← Table.contains_iff, Table.contains, Option.isSome_iff_exists]
    exact ⟨m, found⟩
  have keys : (s.replace d name { m with state := .computing }).models.keys = s.models.keys :=
    Table.keys_modify _ _ _
  have state : ∀ key : Domain × String,
      (s.replace d name { m with state := .computing }).state? key.1 key.2 =
        if key = (d, name) then some .computing else s.state? key.1 key.2 := by
    intro key
    rw [state?, get?_replace]
    split
    next same => cases same; rw [found]; rfl
    · rfl
  have fewer : (s.replace d name { m with state := .computing }).waiting =
      ((s.models.keys.filter fun key => s.state? key.1 key.2 ≠ some .computing).filter
        (· ≠ (d, name))).length := by
    rw [waiting, keys, List.filter_filter]
    congr 1
    refine List.filter_congr fun key _ => ?_
    rw [state]
    by_cases same : key = (d, name) <;> simp [same]
  rw [fewer, waiting, List.length_filter_lt_length_iff_exists]
  exact ⟨(d, name), List.mem_filter.mpr ⟨key, by simp [state?, found, stale]⟩, by simp⟩

end ModelStore

end FiniteVolume
