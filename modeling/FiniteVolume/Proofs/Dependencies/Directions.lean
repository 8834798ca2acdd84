import FiniteVolume.Proofs.Dependencies.Downstream

/-!
The two directions after any calls.

Both directions are updated by hand. They hold the same pairs (`mirrored_run`), and a set that loses
its last name is forgotten with its key (`occupied_run`), so that the keys of one direction are the
names with at least one dependent. Both hold for a model that is computed from itself, too.
-/
namespace FiniteVolume.Dependencies

variable {g : Dependencies} {t : Table String (OrderedSet String)} {m u x name : String}

/-! ## Stored sets -/

/-- Every stored set has an element. -/
def Occupied (t : Table String (OrderedSet String)) : Prop :=
  ∀ k s, t.get? k = some s → s.elems ≠ []

namespace Occupied

theorem empty : Occupied ∅ := fun _ _ found => nomatch found

theorem insert (occupied : Occupied t) {s : OrderedSet String} (k : String) (some : s.elems ≠ []) :
    Occupied (t.insert k s) := by
  intro k' s' found
  rw [Table.get?_insert] at found
  split at found
  · cases found
    exact some
  · exact occupied k' s' found

theorem erase (occupied : Occupied t) (k : String) : Occupied (t.erase k) := by
  intro k' s found
  rw [Table.get?_erase] at found
  split at found
  · cases found
  · exact occupied k' s found

theorem removeDependent (occupied : Occupied t) (name m : String) :
    Occupied (removeDependent t name m) := by
  unfold Dependencies.removeDependent
  split
  · exact occupied
  · dsimp only
    split
    next => exact occupied.erase name
    next rest => exact occupied.insert name fun none => rest (List.isEmpty_iff.mpr none)

theorem removeDependents (occupied : Occupied t) (names : List String) (m : String) :
    Occupied (names.foldl (Dependencies.removeDependent · · m) t) := by
  induction names generalizing t with
  | nil => exact occupied
  | cons name rest ih => exact ih (occupied.removeDependent name m)

/-- The keys are the names under which something stands. -/
theorem mem_keys_iff (occupied : Occupied t) : x ∈ t.keys ↔ ∃ y, y ∈ (setAt t x).elems := by
  constructor
  · intro key
    obtain ⟨s, found⟩ := Option.isSome_iff_exists.mp (Table.contains_iff.mpr key)
    rw [setAt, found, Option.getD_some]
    exact List.exists_mem_of_ne_nil _ (occupied x s found)
  · rintro ⟨y, member⟩
    by_contra absent
    rw [setAt, Table.get?_eq_none_iff.mpr absent] at member
    cases member

end Occupied

theorem occupied_register (sources : Occupied g.sources) (dependents : Occupied g.dependents)
    (m u : String) : Occupied (g.register m u).sources ∧ Occupied (g.register m u).dependents := by
  have some : ∀ (s : OrderedSet String) x, (s.insert x).elems ≠ [] := fun s x =>
    List.ne_nil_of_mem (OrderedSet.mem_elems_insert.mpr (.inl rfl))
  exact ⟨sources.insert m (some _ u), dependents.insert u (some _ m)⟩

theorem occupied_unregister (sources : Occupied g.sources) (dependents : Occupied g.dependents)
    (m : String) : Occupied (g.unregister m).sources ∧ Occupied (g.unregister m).dependents := by
  unfold unregister
  split
  · exact ⟨sources, dependents⟩
  next names _ => exact ⟨sources.erase m, dependents.removeDependents names.elems m⟩

theorem occupied_run (changes : List Change) :
    Occupied (run changes).sources ∧ Occupied (run changes).dependents := by
  induction changes using List.reverseRecOn with
  | nil => exact ⟨.empty, .empty⟩
  | append_singleton earlier c ih =>
    rw [run_concat]
    cases c with
    | register m u => exact occupied_register ih.1 ih.2 m u
    | unregister m => exact occupied_unregister ih.1 ih.2 m

/-! ## Registering again -/

theorem insert_setAt_of_mem (member : x ∈ (setAt t name).elems) :
    t.insert name ((setAt t name).insert x) = t := by
  rw [OrderedSet.insert_of_mem member]
  cases found : t.get? name with
  | none => simp [setAt, found] at member
  | some s => rw [setAt, found, Option.getD_some, Table.insert_eq_self found]

/-- A pair that both directions hold is registered without any change. -/
theorem register_of_mem (source : u ∈ g.sourcesOf m) (dependent : m ∈ g.dependentsOf u) :
    g.register m u = g := by
  rw [register, insert_setAt_of_mem source, insert_setAt_of_mem dependent]

theorem register_register (g : Dependencies) (m u : String) :
    (g.register m u).register m u = g.register m u :=
  register_of_mem (mem_sourcesOf_register.mpr (.inl ⟨rfl, rfl⟩))
    (mem_dependentsOf_register.mpr (.inl ⟨rfl, rfl⟩))

/-- After any calls both directions hold the recorded pairs and no empty set, and the referenced names
are those with at least one dependent, each listed once. Unregistering a model from there removes
exactly the pairs in which it is the model, in both directions: what is computed from it stays
registered, and every list keeps its order. Registering a pair twice is registering it once. -/
theorem directions_inverse (changes : List Change) :
    (∀ m u, u ∈ (run changes).sourcesOf m ↔ m ∈ (run changes).dependentsOf u) ∧
    (∀ m u, m ∈ (run changes).dependentsOf u ↔ Recorded changes u m) ∧
    (∀ key s, (run changes).sources.get? key = some s ∨ (run changes).dependents.get? key = some s →
      s.elems ≠ []) ∧
    (∀ x, x ∈ (run changes).referenced ↔ ∃ m, m ∈ (run changes).dependentsOf x) ∧
    (run changes).referenced.Nodup ∧
    (∀ m d, ((run changes).unregister m).sourcesOf d =
      if d = m then [] else (run changes).sourcesOf d) ∧
    (∀ m u, ((run changes).unregister m).dependentsOf u =
      ((run changes).dependentsOf u).filter (· ≠ m)) ∧
    ∀ m u, ((run changes).register m u).register m u = (run changes).register m u := by
  have mirrored := mirrored_run changes
  obtain ⟨sources, dependents⟩ := occupied_run changes
  refine ⟨fun m u => (mirrored m u).symm, fun m u => mem_dependentsOf_run, ?_, fun x => ?_, ?_, ?_, ?_,
    fun m u => register_register _ m u⟩
  · rintro key s (found | found)
    · exact sources key s found
    · exact dependents key s found
  · exact dependents.mem_keys_iff
  · exact (run changes).dependents.nodup
  · exact sourcesOf_unregister _
  · exact dependentsOf_unregister mirrored

/-- A model that is computed from itself loses this pair, and what else is computed from it does not. -/
example : ((run [.register "e" "n", .register "n" "n", .register "n" "x"]).unregister "n").dependentsOf
    "n" = ["e"] := by decide

end FiniteVolume.Dependencies
