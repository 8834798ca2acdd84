import FiniteVolume.Proofs.Dependencies
import Mathlib.Data.List.Cycle
import Mathlib.Logic.Relation

/-!
Invalidation waves are the downstream closure.

A relation arises from calls that register one pair or unregister one model; `Recorded` says in
terms of the calls which pairs it holds. `Scan` is the search for a wave without a bound on its
steps: everything before the position scanned has its dependents in the set, and everything in the
set is downstream of the name asked for. The bound of `wave` is never reached before the scan ends.
-/
namespace FiniteVolume.Dependencies

/-! ## What the calls have recorded -/

inductive Change where
  | register (model name : String)
  | unregister (model : String)
  deriving DecidableEq, Repr

def Change.apply (g : Dependencies) : Change → Dependencies
  | .register model name => g.register model name
  | .unregister model => g.unregister model

def run (changes : List Change) : Dependencies := changes.foldl Change.apply {}

/-- A pair was registered, and its model has not been unregistered since. -/
def Recorded (changes : List Change) (name model : String) : Prop :=
  ∃ before after, changes = before ++ .register model name :: after ∧ .unregister model ∉ after

variable {g : Dependencies} {m x y name : String} {changes : List Change}

theorem run_concat (changes : List Change) (c : Change) :
    run (changes ++ [c]) = c.apply (run changes) := by
  simp [run]

theorem not_recorded_nil : ¬Recorded [] x m := by
  rintro ⟨before, after, split, -⟩
  simp at split

theorem recorded_concat {c : Change} :
    Recorded (changes ++ [c]) x m ↔
      c = .register m x ∨ Recorded changes x m ∧ c ≠ .unregister m := by
  constructor
  · rintro ⟨before, after, split, kept⟩
    rcases List.eq_nil_or_concat after with rfl | ⟨earlier, last, rfl⟩
    · exact .inl (by simpa using (List.append_inj' split rfl).2)
    · rw [List.concat_eq_append] at split kept
      rw [← List.cons_append, ← List.append_assoc] at split
      obtain ⟨same, ends⟩ := List.append_inj' split rfl
      obtain rfl : c = last := by simpa using ends
      simp only [List.mem_append, List.mem_singleton, not_or] at kept
      exact .inr ⟨⟨before, earlier, same, kept.1⟩, Ne.symm kept.2⟩
  · rintro (rfl | ⟨⟨before, after, rfl, kept⟩, other⟩)
    · exact ⟨changes, [], rfl, List.not_mem_nil⟩
    · refine ⟨before, after ++ [c], by simp, ?_⟩
      simp [kept, other.symm]

theorem mirrored_run (changes : List Change) : (run changes).Mirrored := by
  induction changes using List.reverseRecOn with
  | nil => exact mirrored_empty
  | append_singleton earlier c ih =>
    rw [run_concat]
    cases c with
    | register model name => exact ih.register model name
    | unregister model => exact ih.unregister model

/-- The relation holds exactly the recorded pairs. -/
theorem mem_dependentsOf_run : m ∈ (run changes).dependentsOf x ↔ Recorded changes x m := by
  induction changes using List.reverseRecOn with
  | nil => exact iff_of_false List.not_mem_nil not_recorded_nil
  | append_singleton earlier c ih =>
    rw [run_concat, recorded_concat]
    cases c with
    | register model name =>
      rw [Change.apply, mem_dependentsOf_register, ih]
      simp [and_comm, eq_comm]
    | unregister model =>
      rw [Change.apply, mem_dependentsOf_unregister (mirrored_run earlier), ih]
      simp [ne_comm]

/-! ## The scan -/

/-- Scanning from a position on, adding the dependents of each name met, ends with `result`. -/
inductive Scan (g : Dependencies) : (position : Nat) → (found result : OrderedSet String) → Prop
  | done {position found} (past : found.elems[position]? = none) : Scan g position found found
  | step {position found result name} (here : found.elems[position]? = some name)
      (rest : Scan g (position + 1) (found.insertAll (g.dependentsOf name)) result) :
      Scan g position found result

theorem Scan.unique {position : Nat} {found result other : OrderedSet String}
    (scan : g.Scan position found result) (again : g.Scan position found other) :
    other = result := by
  induction scan with
  | done past =>
    cases again with
    | done => rfl
    | step here _ => rw [past] at here; cases here
  | step here _ ih =>
    cases again with
    | done past => rw [past] at here; cases here
    | step here' rest' =>
      obtain rfl := Option.some.inj (here.symm.trans here')
      exact ih rest'

/-- Enough steps for all pairs end the scan: the names found are no more than the pairs, so the
last step looks past all of them. -/
theorem scan_extendWave (steps position : Nat) (found : OrderedSet String)
    (enough : g.pairCount ≤ position + steps)
    (dependent : ∀ y ∈ found.elems, ∃ x, y ∈ g.dependentsOf x) :
    g.Scan position found (g.extendWave steps position found) := by
  induction steps generalizing position found with
  | zero =>
    have few := size_le_pairCount dependent
    exact .done (List.getElem?_eq_none_iff.mpr (by omega))
  | succ steps ih =>
    unfold extendWave
    split
    next past => exact .done past
    next name here =>
      exact .step here (ih (position + 1) _ (by omega) (dependent_insertAll dependent name))

/-- What holds of the names found and passes to dependents holds of everything the scan finds. -/
theorem Scan.sound {position : Nat} {found result : OrderedSet String} {P : String → Prop}
    (scan : g.Scan position found result) (passes : ∀ x, P x → ∀ y ∈ g.dependentsOf x, P y)
    (holds : ∀ x ∈ found.elems, P x) : ∀ x ∈ result.elems, P x := by
  induction scan with
  | done => exact holds
  | step here _ ih =>
    refine ih fun y member => ?_
    rcases OrderedSet.mem_elems_insertAll.mp member with old | new
    · exact holds y old
    · exact passes _ (holds _ (List.mem_of_getElem? here)) y new

/-! ## The downstream closure -/

def Direct (g : Dependencies) (name model : String) : Prop := model ∈ g.dependentsOf name

/-- `model` is computed from `name` through one or more pairs. -/
def Downstream (g : Dependencies) : (name model : String) → Prop := Relation.TransGen g.Direct

theorem scan_wave (g : Dependencies) (name : String) :
    ∃ result : OrderedSet String, result.elems = g.wave name ∧
      g.Scan 0 (.ofList (g.dependentsOf name)) result :=
  ⟨_, rfl, scan_extendWave _ _ _ (by omega)
    fun _ member => ⟨name, OrderedSet.mem_elems_ofList.mp member⟩⟩

theorem mem_wave_iff : y ∈ g.wave name ↔ g.Downstream name y := by
  constructor
  · obtain ⟨result, same, scan⟩ := scan_wave g name
    rw [← same]
    refine scan.sound (fun _ reached _ direct => reached.tail direct) ?_ y
    exact fun x member => .single (OrderedSet.mem_elems_ofList.mp member)
  · intro reached
    induction reached with
    | single direct => exact mem_wave_of_dependent direct
    | tail _ direct ih => exact mem_wave_of_mem_wave ih direct

/-- A name is downstream of itself exactly when it lies on a cycle of pairs. -/
theorem downstream_self_iff :
    g.Downstream name name ↔ ∃ cycle : Cycle String, name ∈ cycle ∧ cycle.Chain g.Direct := by
  constructor
  · intro around
    obtain ⟨last, toLast, back⟩ := Relation.TransGen.tail'_iff.mp around
    obtain ⟨rest, chain, atEnd⟩ := List.exists_isChain_cons_of_relationReflTransGen toLast
    refine ⟨(name :: rest : List String), by simp, ?_⟩
    rw [Cycle.chain_coe_cons, ← List.cons_append, List.isChain_append]
    refine ⟨chain, List.isChain_singleton _, ?_⟩
    intro z isLast w isHead
    rw [List.getLast?_eq_getLast_of_ne_nil (List.cons_ne_nil _ _), atEnd] at isLast
    simp only [List.head?_cons, Option.mem_def, Option.some.injEq] at isLast isHead
    exact isLast ▸ isHead ▸ back
  · rintro ⟨cycle, on, chain⟩
    -- Along the cycle everything is downstream of everything, as the closure is transitive.
    have through : cycle.Chain g.Downstream := chain.imp fun _ _ => Relation.TransGen.single
    have : IsTrans String g.Downstream := inferInstanceAs (IsTrans _ (Relation.TransGen g.Direct))
    exact Cycle.chain_iff_pairwise.mp through name on name on

/-- After any calls the relation holds the recorded pairs, and for any name the search for the wave
ends, in one way, with the wave. The wave lists each of its names once and lists exactly what is
downstream through the recorded pairs, so the name itself exactly when it lies on a cycle of
them. -/
theorem wave_run_spec (changes : List Change) (name : String) :
    (∀ x m, m ∈ (run changes).dependentsOf x ↔ Recorded changes x m) ∧
      (∃ result : OrderedSet String, result.elems = (run changes).wave name ∧
      ∀ other, (run changes).Scan 0 (.ofList ((run changes).dependentsOf name)) other ↔
        other = result) ∧
      ((run changes).wave name).Nodup ∧
      (∀ y, y ∈ (run changes).wave name ↔ Relation.TransGen (Recorded changes) name y) ∧
      (name ∈ (run changes).wave name ↔
        ∃ cycle : Cycle String, name ∈ cycle ∧ cycle.Chain (Recorded changes)) := by
  have pairs : (run changes).Direct = Recorded changes := by
    funext x m
    exact propext mem_dependentsOf_run
  obtain ⟨result, same, scan⟩ := scan_wave (run changes) name
  refine ⟨fun x m => mem_dependentsOf_run,
    ⟨result, same, fun other => ⟨scan.unique, fun equal => equal ▸ scan⟩⟩,
    same ▸ result.nodup, fun y => ?_, ?_⟩
  · rw [mem_wave_iff, Downstream, pairs]
  · rw [mem_wave_iff, downstream_self_iff, pairs]

example : (run [.register "a" "b", .register "b" "a", .register "c" "a"]).wave "a" =
    ["b", "c", "a"] := by decide

end FiniteVolume.Dependencies
