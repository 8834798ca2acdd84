import FiniteVolume.Proofs.Model.Caching
import FiniteVolume.Proofs.Model.Change

/-!
How many values a model has.

Whatever calculators return, a value that is kept has one entry for every entity of its domain
(`ModelStore.Sized`): writes are checked, and so is what a calculation ends with. Reads keep this
(`Region.fits_read`), and so does every call (`Region.Change.fits`).
-/
namespace FiniteVolume

variable {β α : Type}

@[simp] theorem Model.value_outdate (m : Model β α) : m.outdate.value = m.value := by
  unfold outdate
  split <;> rfl

@[simp] theorem Model.value_outdateIf {condition : Prop} [Decidable condition] (m : Model β α) :
    (m.outdateIf condition).value = m.value := by
  unfold outdateIf
  split <;> simp

namespace ModelStore

variable {s : ModelStore β α} {size : Domain → Nat} {d d' : Domain} {name : String}

/-- Every value that is kept has as many entries as its domain has entities. -/
def Sized (s : ModelStore β α) (size : Domain → Nat) : Prop :=
  ∀ d name m data, s.get? d name = some m → m.value = some data → data.size = size d

theorem sized_empty (size : Domain → Nat) : ({} : ModelStore β α).Sized size :=
  fun _ _ _ _ found => by cases found

theorem eq_ok_of_conclude {target : Target} {result : Except ModelError (Field α)} {data : Field α}
    (returned : (s.conclude target result).1 = .ok data) : result = .ok data := by
  unfold conclude at returned
  split at returned
  · cases returned
  · cases result <;> exact returned

namespace Sized

variable (sized : s.Sized size)

include sized

theorem of_outdateIf {s' : ModelStore β α} {outdated : String → Prop} [DecidablePred outdated]
    (same : ∀ d name, s'.get? d name = (s.get? d name).map (·.outdateIf (outdated name))) :
    s'.Sized size := by
  intro d name m data found value
  rw [same] at found
  obtain ⟨m', found', rfl⟩ := Option.map_eq_some_iff.mp found
  rw [Model.value_outdateIf] at value
  exact sized d name m' data found' value

theorem markOld (name : String) : (s.markOld name).Sized size :=
  sized.of_outdateIf fun _ _ => get?_markOld

theorem write {data : Field α} (fits : data.size = size d) : (s.write d name data).Sized size := by
  intro d' name' m data' found value
  rw [get?_write] at found
  split at found
  next same =>
    cases same
    cases found
    cases value
    exact fits
  · obtain ⟨m', found', rfl⟩ := Option.map_eq_some_iff.mp found
    rw [Model.value_outdateIf] at value
    exact sized d' name' m' data' found' value

theorem declare (calculator : Calculator β α) (contact : Option String) :
    (s.declare d name calculator contact).Sized size := by
  intro d' name' m data found value
  rw [get?_declare] at found
  split at found
  · cases found
    cases value
  · obtain ⟨m', found', rfl⟩ := Option.map_eq_some_iff.mp found
    rw [Model.value_outdateIf] at value
    exact sized d' name' m' data found' value

theorem remove (d : Domain) (name : String) : (s.remove d name).Sized size := by
  by_cases present : s.contains d name = true
  · intro d' name' m data found value
    rw [get?_remove present] at found
    split at found
    · cases found
    · obtain ⟨m', found', rfl⟩ := Option.map_eq_some_iff.mp found
      rw [Model.value_outdateIf] at value
      exact sized d' name' m' data found' value
  · rw [remove_of_absent (Bool.eq_false_iff.mpr present)]
    exact sized

theorem setDisplay (d : Domain) (name : String) (display : DisplayType) :
    (s.setDisplay d name display).Sized size := by
  intro d' name' m data found value
  rw [get?_setDisplay] at found
  split at found
  · obtain ⟨m', found', rfl⟩ := Option.map_eq_some_iff.mp found
    exact sized d' name' m' data found' value
  · exact sized d' name' m data found value

theorem replace {m : Model β α} (fits : ∀ data, m.value = some data → data.size = size d) :
    (s.replace d name m).Sized size := by
  intro d' name' m' data found value
  rw [get?_replace] at found
  split at found
  next same =>
    cases same
    obtain ⟨m₀, found₀, rfl⟩ := Option.map_eq_some_iff.mp found
    exact fits data value
  · exact sized d' name' m' data found value

theorem conclude {target : Target} {result : Except ModelError (Field α)}
    (fits : ∀ data, result = .ok data → data.size = size target.domain) :
    (s.conclude target result).2.Sized size := by
  unfold ModelStore.conclude
  split
  · exact sized
  · cases result with
    | ok data =>
      refine sized.replace fun data' value => ?_
      cases value
      exact fits data rfl
    | error e => exact sized.replace fun _ value => by cases value

/-- The mark of a model under computation leaves its value. -/
theorem marked {m : Model β α} {state : ModelState} (found : s.get? d name = some m) :
    (s.replace d name { m with state }).Sized size :=
  sized.replace fun data value => sized d name m data found value

theorem size_of_begin {data : Field α} {count : Nat}
    (began : (s.begin d name count).1 = .ok (.ready data)) : data.size = size d := by
  unfold begin at began
  split at began
  · cases began
  next m found =>
    refine sized d name m data found ?_
    cases value : m.value <;> cases state : m.state <;> cases source : m.source <;>
      simp [value, state, source] at began ⊢ <;> exact began

end Sized

end ModelStore

namespace Region

variable {r r' : Region β α} {d : Domain} {name : String}

/-- Every value that is kept has one entry for every entity of its domain. -/
def Sized (r : Region β α) : Prop := r.models.Sized r.size

/-- The second region is the first with other models of the right sizes. -/
structure Fits (r r' : Region β α) : Prop where
  mesh : r'.mesh = r.mesh
  sized : r.Sized → r'.Sized

theorem Fits.refl (r : Region β α) : Fits r r := ⟨rfl, id⟩

theorem Fits.trans {r'' : Region β α} (first : Fits r r') (second : Fits r' r'') : Fits r r'' :=
  ⟨second.mesh.trans first.mesh, second.sized ∘ first.sized⟩

theorem Fits.of_models (mesh : r'.mesh = r.mesh)
    (sized : r.Sized → r'.models.Sized r.size) : Fits r r' where
  mesh := mesh
  sized holds := by
    rw [Sized, show r'.size = r.size from congrArg Mesh.size mesh]
    exact sized holds

theorem fits_of_setData {data : Field α} (wrote : r.setData d name data = .ok r') : Fits r r' := by
  obtain ⟨size, alike⟩ := alike_of_setData wrote
  refine .of_models alike.mesh fun sized => ?_
  rw [alike.models]
  exact sized.write size

/-! ## Reads -/

variable [Scalar α]

theorem fits_endRead {target : Target} (outcome : Outcome α)
    (size : target.size = r.size target.domain) : Fits r (endRead target outcome r).2 :=
  .of_models rfl fun sized => sized.conclude fun _ settled => (size_of_settle settled).trans size

variable {limit : String → RegionRead β α (Option (Resolved α))}

theorem fits_readWithin (limits : ∀ name r, Fits r (limit name r).2) (k : Nat) (d : Domain)
    (name : String) (r : Region β α) : Fits r (readWithin limit k d name r).2 := by
  refine readWithin_rel .refl (fun _ _ _ => .trans) limits ?_ k d name r
  intro r r' d name m calculator outcome found _ _ ran
  have mark : Fits r (r.marked d name m) := .of_models rfl fun sized => sized.marked found
  have both := mark.trans ran
  refine both.trans (fits_endRead outcome ?_)
  exact congrFun (congrArg Mesh.size both.mesh).symm d

theorem fits_read (r : Region β α) (d : Domain) (name : String) : Fits r (r.read d name).2 :=
  fits_readWithin (fun _ r => .refl r) _ d name r

theorem Sized.size_of_readWithin {data : Field α} {k : Nat} (sized : r.Sized)
    (ran : (readWithin limit k d name r).1 = .ok data) : data.size = r.size d := by
  rcases r.models.begin_cases d name with ⟨m, calculator, found, stale, computed⟩ | ⟨result, began⟩
  · rw [readWithin_of_stale found stale computed] at ran
    exact size_of_settle (ModelStore.eq_ok_of_conclude ran)
  · rw [readWithin_of_begin (began _)] at ran
    have ready := congrArg Prod.fst (began (r.size d))
    rw [show result = _ from ran] at ready
    exact sized.size_of_begin ready

/-- Every value that is read has one entry for every entity of its domain. -/
theorem Sized.size_of_read {data : Field α} (sized : r.Sized) (ran : (r.read d name).1 = .ok data) :
    data.size = r.size d :=
  sized.size_of_readWithin ran

/-! ## Calls -/

variable [BaseScalar β] [Precision β α]

theorem Change.fits (change : Change β α) (r : Region β α) : Fits r (change.apply r) := by
  obtain ⟨r₀, r₁, consulted, effect, alike⟩ := change.apply_cases r
  have read : Fits r r₀ := by
    rcases consulted with rfl | ⟨d, name, rfl⟩
    · exact .refl _
    · exact r.fits_read d name
  have effected : Fits r₀ r₁ := by
    cases effect with
    | none => exact .refl _
    | write d name data _ fits => exact .of_models rfl fun sized => sized.write fits
    | declare => exact .of_models rfl fun sized => sized.declare _ _
    | remove d name => exact .of_models rfl fun sized => sized.remove d name
    | display d name display => exact .of_models rfl fun sized => sized.setDisplay d name display
    | markOld name => exact .of_models rfl fun sized => sized.markOld name
    | parameter name value => exact .of_models rfl fun sized => sized.markOld name
    | contact => exact ⟨rfl, id⟩
  refine (read.trans effected).trans (.of_models alike.mesh fun sized => ?_)
  rw [alike.models]
  exact sized

end Region

end FiniteVolume
