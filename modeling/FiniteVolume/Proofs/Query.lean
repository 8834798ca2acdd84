import FiniteVolume.Model.Query

/-!
What a query asks and what its result rests on.

A run against an owner with state is described by its log, the questions in order with the state in
which each is asked. `Query.Meets` bounds what a query may ask and ties its result to the first
cycle among the answers, which is the first in the log by `Meets.post_runState`. `Query.Returns` is
the meaning of a query against answers that depend on the name alone, and a run without a cyclic
answer returns what such answers give (`Query.returns_of_acyclic`).
-/
namespace FiniteVolume

inductive Question where
  | model (name : String)
  | parameter (name : String)
  deriving Repr, DecidableEq

def Question.name : Question → String
  | model name | parameter name => name

def ModelError.cycle? : ModelError → Option String
  | cyclicDependency name => some name
  | _ => none

def cycleOf {ρ : Type} : Except ModelError ρ → Option String
  | .ok _ => none
  | .error e => e.cycle?

theorem cycleOf_eq_some_iff {ρ : Type} {result : Except ModelError ρ} {name : String} :
    cycleOf result = some name ↔ result = .error (.cyclicDependency name) := by
  cases result with
  | ok _ => simp [cycleOf]
  | error e => cases e <;> simp [cycleOf, ModelError.cycle?]

theorem cycleOf_map {ρ σ : Type} (f : ρ → σ) (result : Except ModelError ρ) :
    cycleOf (result.map f) = cycleOf result := by
  cases result <;> rfl

/-- From the image of a state with a property the step ends as from the state, in the image of where it
ends from there, which has the property again. -/
def Respects {σ ρ : Type} (φ : σ → σ) (I : σ → Prop) (step : σ → ρ × σ) : Prop :=
  ∀ s, I s → step (φ s) = ((step s).1, φ (step s).2) ∧ I (step s).2

namespace Query

variable {β α ρ τ σ : Type}

/-- The questions may only be the allowed ones, and the result stands in the given relation to the
first cycle among the answers, those before the query included. -/
def Meets (allowed : Question → Prop) (post : Option String → ρ → Prop) :
    Option String → Query β α ρ → Prop
  | seen, done result => post seen result
  | seen, lookup name next =>
    allowed (.model name) ∧ ∀ answer, Meets allowed post (seen.or (cycleOf answer)) (next answer)
  | seen, parameter name next =>
    allowed (.parameter name) ∧ ∀ answer, Meets allowed post seen (next answer)

section

variable {allowed allowed' : Question → Prop} {post post' : Option String → ρ → Prop}
  {seen : Option String} {q : Query β α ρ}

theorem Meets.mono (meets : q.Meets allowed post seen) (wider : ∀ x, allowed x → allowed' x)
    (weaker : ∀ seen result, post seen result → post' seen result) :
    q.Meets allowed' post' seen := by
  induction q generalizing seen with
  | done result => exact weaker seen result meets
  | lookup name next ih => exact ⟨wider _ meets.1, fun answer => ih answer (meets.2 answer)⟩
  | parameter name next ih => exact ⟨wider _ meets.1, fun answer => ih answer (meets.2 answer)⟩

theorem Meets.bind {f : ρ → Query β α τ} {post' : Option String → τ → Prop}
    (meets : q.Meets allowed post seen)
    (continues : ∀ seen result, post seen result → (f result).Meets allowed post' seen) :
    (q.bind f).Meets allowed post' seen := by
  induction q generalizing seen with
  | done result => exact continues seen result meets
  | lookup name next ih => exact ⟨meets.1, fun answer => ih answer (meets.2 answer)⟩
  | parameter name next ih => exact ⟨meets.1, fun answer => ih answer (meets.2 answer)⟩

end

/-! ## Any answers -/

def Always (post : ρ → Prop) : Query β α ρ → Prop
  | done result => post result
  | lookup _ next => ∀ answer, Always post (next answer)
  | parameter _ next => ∀ answer, Always post (next answer)

section

variable {q : Query β α ρ} {post : ρ → Prop}

theorem always_of_forall (holds : ∀ result, post result) : q.Always post := by
  induction q with
  | done result => exact holds result
  | lookup name next ih => exact ih
  | parameter name next ih => exact ih

theorem Always.mono {post' : ρ → Prop} (always : q.Always post)
    (weaker : ∀ result, post result → post' result) : q.Always post' := by
  induction q with
  | done result => exact weaker result always
  | lookup name next ih => exact fun answer => ih answer (always answer)
  | parameter name next ih => exact fun answer => ih answer (always answer)

theorem Always.and {post' : ρ → Prop} (always : q.Always post) (always' : q.Always post') :
    q.Always fun result => post result ∧ post' result := by
  induction q with
  | done result => exact ⟨always, always'⟩
  | lookup name next ih => exact fun answer => ih answer (always answer) (always' answer)
  | parameter name next ih => exact fun answer => ih answer (always answer) (always' answer)

theorem Always.bind {f : ρ → Query β α τ} {post' : τ → Prop} (always : q.Always post)
    (continues : ∀ result, post result → (f result).Always post') : (q >>= f).Always post' := by
  induction q with
  | done result => exact continues result always
  | lookup name next ih => exact fun answer => ih answer (always answer)
  | parameter name next ih => exact fun answer => ih answer (always answer)

end

/-! ## Answers of a kind -/

/-- The result is as stated, whatever is answered among what is given. -/
def Given (given : LookupResult α → Prop) (post : ρ → Prop) : Query β α ρ → Prop
  | done result => post result
  | lookup _ next => ∀ answer, given answer → Given given post (next answer)
  | parameter _ next => ∀ answer, Given given post (next answer)

theorem Given.bind {given : LookupResult α → Prop} {post : ρ → Prop} {post' : τ → Prop}
    {q : Query β α ρ} {f : ρ → Query β α τ} (holds : q.Given given post)
    (continues : ∀ result, post result → (f result).Given given post') :
    (q >>= f).Given given post' := by
  induction q with
  | done result => exact continues result holds
  | lookup name next ih => exact fun answer kind => ih answer (holds answer kind)
  | parameter name next ih => exact fun answer => ih answer (holds answer)

/-! ## Fixed answers -/

/-- The result of a query whose lookups have the given answers. -/
def Returns (answers : String → LookupResult α → Prop) (parameterOf : String → Option β) :
    Query β α ρ → ρ → Prop
  | done r, result => result = r
  | lookup name next, result => ∃ answer, answers name answer ∧
      Returns answers parameterOf (next answer) result
  | parameter name next, result => Returns answers parameterOf (next (parameterOf name)) result

section

variable {parameterOf : String → Option β} {q : Query β α ρ} {result : ρ}

theorem run_option_eq_some_iff {answer : String → Option (LookupResult α)} :
    q.run answer (fun name => some (parameterOf name)) = some result ↔
      q.Returns (fun name a => answer name = some a) parameterOf result := by
  induction q with
  | done r => simp [run, Returns, eq_comm]
  | lookup name next ih =>
    simp only [run, Returns, ← ih]
    cases answer name <;> simp
  | parameter name next ih => exact ih _

theorem Returns.mono {answers answers' : String → LookupResult α → Prop}
    (returns : q.Returns answers parameterOf result)
    (more : ∀ name a, answers name a → answers' name a) :
    q.Returns answers' parameterOf result := by
  induction q with
  | done r => exact returns
  | lookup name next ih =>
    obtain ⟨a, answered, rest⟩ := returns
    exact ⟨a, more name a answered, ih a rest⟩
  | parameter name next ih => exact ih _ returns

theorem Returns.restrict {allowed : Question → Prop} {post : Option String → ρ → Prop}
    {seen : Option String} {answers : String → LookupResult α → Prop}
    (returns : q.Returns answers parameterOf result) (meets : q.Meets allowed post seen) :
    q.Returns (fun name a => allowed (.model name) ∧ answers name a) parameterOf result := by
  induction q generalizing seen with
  | done r => exact returns
  | lookup name next ih =>
    obtain ⟨a, answered, rest⟩ := returns
    exact ⟨a, ⟨meets.1, answered⟩, ih a rest (meets.2 a)⟩
  | parameter name next ih => exact ih _ returns (meets.2 _)

/-- Answers that come in stages are all given by one stage. -/
theorem Returns.bounded {answers : Nat → String → LookupResult α → Prop}
    (grow : ∀ i j name a, i ≤ j → answers i name a → answers j name a)
    (returns : q.Returns (fun name a => ∃ i, answers i name a) parameterOf result) :
    ∃ i, q.Returns (answers i) parameterOf result := by
  induction q with
  | done r => exact ⟨0, returns⟩
  | lookup name next ih =>
    obtain ⟨a, ⟨i, answered⟩, rest⟩ := returns
    obtain ⟨j, rest⟩ := ih a rest
    exact ⟨max i j, a, grow i _ name a (Nat.le_max_left i j) answered,
      rest.mono fun name a => grow j _ name a (Nat.le_max_right i j)⟩
  | parameter name next ih => exact ih _ returns

/-- A query sees no difference between answers that agree on what it may ask. -/
theorem run_option_congr {allowed : Question → Prop} {post : Option String → ρ → Prop}
    {seen : Option String} (meets : q.Meets allowed post seen)
    {answer answer' : String → Option (LookupResult α)} {parameterOf' : String → Option β}
    (models : ∀ name, allowed (.model name) → answer name = answer' name)
    (parameters : ∀ name, allowed (.parameter name) → parameterOf name = parameterOf' name) :
    q.run answer (fun name => some (parameterOf name)) =
      q.run answer' (fun name => some (parameterOf' name)) := by
  induction q generalizing seen with
  | done r => rfl
  | lookup name next ih =>
    simp only [run, models name meets.1]
    cases answer' name with
    | none => rfl
    | some a => exact ih a (meets.2 a)
  | parameter name next ih =>
    simp only [run, parameters name meets.1]
    exact ih _ (meets.2 _)

end

/-! ## Owners with state -/

/-- Run a query against an owner whose state lookups may change. -/
def runState (onLookup : String → StateM σ (LookupResult α)) (parameterOf : σ → String → Option β)
    (q : Query β α ρ) : StateM σ ρ :=
  q.run onLookup (fun name => return parameterOf (← get) name)

/-- The questions of a run in order, with the state in which each is asked. -/
def log (onLookup : String → StateM σ (LookupResult α)) (parameterOf : σ → String → Option β) :
    Query β α ρ → σ → List (Question × σ)
  | done _, _ => []
  | lookup name next, s =>
    (.model name, s) :: log onLookup parameterOf (next (onLookup name s).1) (onLookup name s).2
  | parameter name next, s =>
    (.parameter name, s) :: log onLookup parameterOf (next (parameterOf s name)) s

def cycleIn (onLookup : String → StateM σ (LookupResult α)) : Question × σ → Option String
  | (.model name, s) => cycleOf (onLookup name s).1
  | (.parameter _, _) => none

section

variable {onLookup onLookup' : String → StateM σ (LookupResult α)}
  {parameterOf : σ → String → Option β} {q : Query β α ρ} {s : σ}

theorem runState_bind (q : Query β α ρ) (f : ρ → Query β α τ) (s : σ) :
    (q >>= f).runState onLookup parameterOf s =
      (f (q.runState onLookup parameterOf s).1).runState onLookup parameterOf
        (q.runState onLookup parameterOf s).2 := by
  induction q generalizing s with
  | done r => rfl
  | lookup name next ih => exact ih _ _
  | parameter name next ih => exact ih _ _

theorem Meets.log {allowed : Question → Prop} {post : Option String → ρ → Prop}
    {seen : Option String} (meets : q.Meets allowed post seen) :
    ∀ asked ∈ q.log onLookup parameterOf s, allowed asked.1 := by
  induction q generalizing seen s with
  | done r => simp [Query.log]
  | lookup name next ih => exact List.forall_mem_cons.mpr ⟨meets.1, ih _ (meets.2 _)⟩
  | parameter name next ih => exact List.forall_mem_cons.mpr ⟨meets.1, ih _ (meets.2 _)⟩

/-- A run changes the state by its lookups only. -/
theorem runState_rel {R : σ → σ → Prop} (refl : ∀ s, R s s)
    (trans : ∀ s t u, R s t → R t u → R s u) (step : ∀ name s, R s (onLookup name s).2) :
    R s (q.runState onLookup parameterOf s).2 := by
  induction q generalizing s with
  | done r => exact refl s
  | lookup name next ih => exact trans _ _ _ (step name s) (ih _)
  | parameter name next ih => exact ih _

theorem rel_of_mem_log {R : σ → σ → Prop} (refl : ∀ s, R s s)
    (trans : ∀ s t u, R s t → R t u → R s u) (step : ∀ name s, R s (onLookup name s).2) :
    ∀ asked ∈ q.log onLookup parameterOf s, R s asked.2 := by
  induction q generalizing s with
  | done r => simp [Query.log]
  | lookup name next ih =>
    exact List.forall_mem_cons.mpr ⟨refl s, fun asked member =>
      trans _ _ _ (step name s) (ih _ asked member)⟩
  | parameter name next ih => exact List.forall_mem_cons.mpr ⟨refl s, ih _⟩

theorem rel_after_lookup {R : σ → σ → Prop} (refl : ∀ s, R s s)
    (trans : ∀ s t u, R s t → R t u → R s u) (step : ∀ name s, R s (onLookup name s).2)
    {name : String} {t : σ} (member : (.model name, t) ∈ q.log onLookup parameterOf s) :
    R (onLookup name t).2 (q.runState onLookup parameterOf s).2 := by
  induction q generalizing s with
  | done r => simp [Query.log] at member
  | lookup name' next ih =>
    rcases List.mem_cons.mp member with first | later
    · obtain ⟨⟨rfl⟩, rfl⟩ := Prod.mk.inj first
      exact runState_rel refl trans step
    · exact ih _ later
  | parameter name' next ih =>
    rcases List.mem_cons.mp member with first | later
    · exact absurd (Prod.mk.inj first).1 (by simp)
    · exact ih _ later

theorem runState_congr {I : σ → Prop} (start : I s)
    (same : ∀ name s, I s → onLookup name s = onLookup' name s)
    (keeps : ∀ name s, I s → I (onLookup name s).2) :
    q.runState onLookup parameterOf s = q.runState onLookup' parameterOf s := by
  induction q generalizing s with
  | done r => rfl
  | lookup name next ih =>
    have equal := same name s start
    have next_state := keeps name s start
    change (next (onLookup name s).1).runState onLookup parameterOf (onLookup name s).2 =
      (next (onLookup' name s).1).runState onLookup' parameterOf (onLookup' name s).2
    rw [← equal]
    exact ih _ next_state
  | parameter name next ih => exact ih _ start

/-- An owner that gives the same answers in two states gives the same result from both. -/
theorem runState_agree (q : Query β α ρ) (onLookup : String → StateM σ (LookupResult α))
    (parameterOf : σ → String → Option β) {P : σ → σ → Prop} {s t : σ} (start : P s t)
    (parameters : ∀ s t, P s t → parameterOf t = parameterOf s)
    (answers : ∀ name s t, P s t → (onLookup name t).1 = (onLookup name s).1 ∧
      P (onLookup name s).2 (onLookup name t).2) :
    (q.runState onLookup parameterOf t).1 = (q.runState onLookup parameterOf s).1 ∧
      P (q.runState onLookup parameterOf s).2 (q.runState onLookup parameterOf t).2 := by
  induction q generalizing s t with
  | done r => exact ⟨rfl, start⟩
  | lookup name next ih =>
    obtain ⟨same, after⟩ := answers name s t start
    change ((next (onLookup name t).1).runState onLookup parameterOf (onLookup name t).2).1 = _ ∧
      P _ ((next (onLookup name t).1).runState onLookup parameterOf (onLookup name t).2).2
    rw [same]
    exact ih _ after
  | parameter name next ih =>
    change ((next (parameterOf t name)).runState onLookup parameterOf t).1 = _ ∧
      P _ ((next (parameterOf t name)).runState onLookup parameterOf t).2
    rw [parameters s t start]
    exact ih _ start

/-- A run asks alike in the images of the states, where its lookups answer alike. -/
theorem respects_runState {q : Query β α ρ} {φ : σ → σ} {I : σ → Prop}
    (lookups : ∀ name, Respects φ I (onLookup name))
    (parameters : ∀ s, parameterOf (φ s) = parameterOf s) :
    Respects φ I (q.runState onLookup parameterOf) := by
  induction q with
  | done r => exact fun s holds => ⟨rfl, holds⟩
  | lookup name next ih =>
    intro s holds
    obtain ⟨same, kept⟩ := lookups name s holds
    change (next (onLookup name (φ s)).1).runState onLookup parameterOf (onLookup name (φ s)).2 = _ ∧ _
    rw [same]
    exact ih _ _ kept
  | parameter name next ih =>
    intro s holds
    change (next (parameterOf (φ s) name)).runState onLookup parameterOf (φ s) = _ ∧ _
    rw [parameters]
    exact ih _ s holds

theorem Always.runState {post : ρ → Prop} (always : q.Always post) :
    post (q.runState onLookup parameterOf s).1 := by
  induction q generalizing s with
  | done r => exact always
  | lookup name next ih => exact ih _ (always _)
  | parameter name next ih => exact ih _ (always _)

/-- What holds of answers of a kind holds of every run against an owner that answers so. -/
theorem Given.runState {given : LookupResult α → Prop} {post : ρ → Prop} {I : σ → Prop}
    (holds : q.Given given post) (start : I s)
    (answers : ∀ name s, I s → given (onLookup name s).1 ∧ I (onLookup name s).2) :
    post (q.runState onLookup parameterOf s).1 := by
  induction q generalizing s with
  | done r => exact holds
  | lookup name next ih =>
    obtain ⟨kind, after⟩ := answers name s start
    exact ih _ (holds _ kind) after
  | parameter name next ih => exact ih _ (holds _) start

/-- Two owners whose states correspond and which give the same answers to what may be asked: they
are asked the same questions in the same order, with one result, and their states correspond again. -/
theorem Meets.runState_alike {σ' : Type} {onLookup' : String → StateM σ' (LookupResult α)}
    {parameterOf' : σ' → String → Option β} {allowed : Question → Prop}
    {post : Option String → ρ → Prop} {seen : Option String} (meets : q.Meets allowed post seen)
    {R : σ → σ' → Prop} {s' : σ'} (start : R s s')
    (models : ∀ name, allowed (.model name) → ∀ s s', R s s' →
      (onLookup' name s').1 = (onLookup name s).1 ∧ R (onLookup name s).2 (onLookup' name s').2)
    (parameters : ∀ name, allowed (.parameter name) → ∀ s s', R s s' →
      parameterOf' s' name = parameterOf s name) :
    (q.runState onLookup' parameterOf' s').1 = (q.runState onLookup parameterOf s).1 ∧
      (q.log onLookup' parameterOf' s').map Prod.fst = (q.log onLookup parameterOf s).map Prod.fst ∧
      R (q.runState onLookup parameterOf s).2 (q.runState onLookup' parameterOf' s').2 := by
  induction q generalizing seen s s' with
  | done r => exact ⟨rfl, rfl, start⟩
  | lookup name next ih =>
    obtain ⟨same, after⟩ := models name meets.1 s s' start
    obtain ⟨result, asked, finish⟩ := ih _ (meets.2 (onLookup name s).1) after
    simp only [Query.log, List.map_cons, same, asked, true_and]
    change ((next (onLookup' name s').1).runState onLookup' parameterOf' (onLookup' name s').2).1 = _ ∧
      R _ ((next (onLookup' name s').1).runState onLookup' parameterOf' (onLookup' name s').2).2
    rw [same]
    exact ⟨result, finish⟩
  | parameter name next ih =>
    have same := parameters name meets.1 s s' start
    obtain ⟨result, asked, finish⟩ := ih _ (meets.2 (parameterOf s name)) start
    simp only [Query.log, List.map_cons, same, asked, true_and]
    change ((next (parameterOf' s' name)).runState onLookup' parameterOf' s').1 = _ ∧
      R _ ((next (parameterOf' s' name)).runState onLookup' parameterOf' s').2
    rw [same]
    exact ⟨result, finish⟩

/-- The result of a run stands in its relation to the first cycle among the answers of the log. -/
theorem Meets.post_runState {allowed : Question → Prop} {post : Option String → ρ → Prop}
    {seen : Option String} (meets : q.Meets allowed post seen) :
    post (seen.or ((q.log onLookup parameterOf s).findSome? (cycleIn onLookup)))
      (q.runState onLookup parameterOf s).1 := by
  induction q generalizing seen s with
  | done r => rwa [Query.log, List.findSome?_nil, Option.or_none]
  | lookup name next ih =>
    have rest := ih (onLookup name s).1 (meets.2 _) (s := (onLookup name s).2)
    rw [Option.or_assoc] at rest
    change post (seen.or (((_, s) :: _ : List (Question × σ)).findSome? (cycleIn onLookup)))
      ((next (onLookup name s).1).runState onLookup parameterOf (onLookup name s).2).1
    rw [List.findSome?_cons, cycleIn]
    cases here : cycleOf (onLookup name s).1 with
    | none => simpa [here] using rest
    | some cycle => simpa [here] using rest
  | parameter name next ih =>
    exact ih _ (meets.2 _)

/-- A run without a cyclic answer returns what the fixed answers give. -/
theorem returns_of_acyclic {allowed : Question → Prop} {post : Option String → ρ → Prop}
    {seen : Option String} {I : σ → Prop} {answers : String → LookupResult α → Prop}
    {fixed : String → Option β} (meets : q.Meets allowed post seen) (start : I s)
    (parameters : ∀ s, I s → parameterOf s = fixed)
    (keeps : ∀ name s, I s → I (onLookup name s).2)
    (answered : ∀ name s, allowed (.model name) → I s → cycleOf (onLookup name s).1 = none →
      answers name (onLookup name s).1)
    (acyclic : ∀ asked ∈ q.log onLookup parameterOf s, cycleIn onLookup asked = none) :
    q.Returns answers fixed (q.runState onLookup parameterOf s).1 := by
  induction q generalizing seen s with
  | done r => rfl
  | lookup name next ih =>
    obtain ⟨here, later⟩ := List.forall_mem_cons.mp acyclic
    exact ⟨_, answered name s meets.1 start here, ih _ (meets.2 _) (keeps name s start) later⟩
  | parameter name next ih =>
    change Returns answers fixed (next (fixed name)) _
    rw [← congrFun (parameters s start) name]
    exact ih _ (meets.2 _) start (List.forall_mem_cons.mp acyclic).2

/-- Where the owner gives the fixed answers, its run asks only what they answer. -/
theorem answered_of_mem_log {I : σ → Prop} {answers : String → LookupResult α → Prop}
    {fixed : String → Option β} {result : ρ} (returns : q.Returns answers fixed result) (start : I s)
    (parameters : ∀ s, I s → parameterOf s = fixed)
    (follows : ∀ name s a, I s → answers name a →
      (onLookup name s).1 = a ∧ I (onLookup name s).2) :
    ∀ name t, (.model name, t) ∈ q.log onLookup parameterOf s → I t ∧ ∃ a, answers name a := by
  induction q generalizing s with
  | done r => simp [Query.log]
  | lookup name next ih =>
    obtain ⟨a, answered, rest⟩ := returns
    obtain ⟨equal, next_state⟩ := follows name s a start answered
    intro name' t member
    rcases List.mem_cons.mp member with first | later
    · obtain ⟨⟨rfl⟩, rfl⟩ := Prod.mk.inj first
      exact ⟨start, a, answered⟩
    · exact ih a rest next_state name' t (equal ▸ later)
  | parameter name next ih =>
    intro name' t member
    rcases List.mem_cons.mp member with first | later
    · exact absurd (Prod.mk.inj first).1 (by simp)
    · refine ih _ returns start name' t ?_
      rw [← parameters s start]
      exact later

end

end Query

end FiniteVolume
