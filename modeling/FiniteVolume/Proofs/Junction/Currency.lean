import FiniteVolume.Proofs.Junction.Setting
import FiniteVolume.Proofs.Numeric.Exact

/-!
Reads of an interface are never outdated.

After every history a read of an interface returns what it would return if nothing had been computed
before (`Setting.Reached.reads_are_current`), provided that the reads of the regions do and that no
variable which the model reads has the name of a model of the interface. A parameter of the regions that
has another value has the models that read it computed anew (`Setting.Reached.parameter_reaches_models`),
but not where a model of the interface has its name, for then nothing notices the new value
(`Setting.parameter_missed_where_shadowed`).
-/
namespace FiniteVolume

variable {β α : Type}

/-! ## From scratch -/

/-- A region without computed models returns what it would return with nothing computed. -/
theorem Region.Settled.read_same_of_written [BaseScalar β] [Scalar α] [Precision β α] {r : Region β α}
    (settled : r.Settled)
    (written : ∀ entry ∈ r.models.models.entries, entry.2.isComputed = false) (d : Domain)
    (name : String) : SameUnlessCyclic (r.read d name).1 (r.uncached.read d name).1 := by
  have represents : Represents r r.uncached := by
    refine ⟨rfl, rfl, rfl, rfl, fun d name => ?_⟩
    rw [Region.uncached, ModelStore.get?_uncached]
    cases found : r.models.get? d name with
    | none => rfl
    | some m =>
      have here := written _ (Table.get?_eq_some_iff.mp found)
      cases source : m.source with
      | written => rw [Option.map_some, Model.uncached_of_written source]
      | computed calculator => simp [Model.isComputed, source] at here
  exact acyclic?_eq_iff.mp
    ((represents.still settled settled.uncached).acyclic?_read d name).symm

namespace Coupled

variable [BaseScalar β] [Scalar α] [Precision β α] {c : Coupled β α}

def uncached (c : Coupled β α) : Coupled β α :=
  ⟨c.junction.uncached, c.region0.uncached, c.region1.uncached⟩

omit [BaseScalar β] [Scalar α] [Precision β α] in
theorem region_uncached (side : Side) : c.uncached.region side = (c.region side).uncached := by
  cases side <;> rfl

/-- Reads of node models of the regions return what they would return with nothing computed yet. -/
def UpToDate (c : Coupled β α) : Prop :=
  ∀ side name, Region.SameUnlessCyclic ((c.region side).read .node name).1
    ((c.region side).uncached.read .node name).1

omit [BaseScalar β] [Precision β α] in
theorem outside_uncached (upToDate : c.UpToDate) : c.uncached.outside = c.outside := by
  refine outside_congr rfl rfl (fun side => ?_) (fun side => ?_) fun side name => ?_
  all_goals rw [region_uncached]
  · funext d name
    exact ModelStore.contains_uncached
  · rfl
  · exact (acyclic?_eq_iff.mpr (upToDate side name)).symm

end Coupled

namespace Setting

variable [BaseScalar β] [Scalar α] [Precision β α] {s : Setting β α} {i k : Nat} {name : String}

namespace Coherent

variable (coherent : s.Coherent) (upToDate : (s.coupled i k).UpToDate)

include coherent upToDate

theorem underway_uncached : Coupled.Underway (s.coupled i k).refresh.junction
    (s.coupled i k).outside (fun _ => False) (s.coupled i k).uncached.refresh := by
  have declared := Coupled.uncached_refresh (s.coupled i k)
  have scratch : (s.coupled i k).uncached.junction.Coherent (s.coupled i k).outside := by
    have marked : (s.coupled i k).refresh.junction.uncached.Coherent (s.coupled i k).outside :=
      (coherent.refresh i k).uncached
    rwa [declared] at marked
  refine Coupled.underway_of_coherent (o := (s.coupled i k).outside) (scratch.refresh_same _) ?_ ?_ ?_
  · rw [declared, Coupled.uncached_refresh]
    exact Junction.uncached_uncached _
  · rw [Coupled.outside_refresh, Coupled.outside_uncached upToDate]
  · intro side
    cases side <;> exact (coherent.settled _).uncached

theorem same_read (unshadowed : s.junction.Unshadowed name) : Region.SameUnlessCyclic
    ((s.coupled i k).read name).1 ((s.coupled i k).uncached.read name).1 :=
  (coherent.underway i k).course.same_read (coherent.underway_uncached upToDate).course
    (unshadowed.of_uncached_eq (Coupled.uncached_refresh (s.coupled i k)))
    (Coupled.waiting_refresh_le _) (Coupled.waiting_refresh_le _)

theorem same_find (unshadowed : s.junction.Unshadowed name) : Region.SameUnlessCyclic
    ((s.coupled i k).find name).1 ((s.coupled i k).uncached.find name).1 :=
  (coherent.underway i k).course.same_lookup (coherent.underway_uncached upToDate).course
    (unshadowed.of_uncached_eq (Coupled.uncached_refresh (s.coupled i k)))
    (ModelStore.waiting_le_size _) (ModelStore.waiting_le_size _)

omit upToDate in
theorem uncached_read (i k : Nat) (name : String) :
    ((s.coupled i k).read name).2.junction.uncached = s.junction.uncached :=
  ((coherent.underway i k).read _ name).declared.trans (Coupled.uncached_refresh _)

end Coherent

def lines : Setting ℚ ℚ where
  junction := { device := "device", geometry := ⟨"middle", "left", "right", [(1, 0)]⟩ }
  regions i := .create i "device" "line" ⟨.segment, #[⟨0, 0, 0⟩, ⟨1, 0, 0⟩], #[⟨0, 1⟩], #[]⟩ {}

theorem reached_lines : lines.Reached := .fresh ⟨rfl, rfl, fun _ => ⟨_, _, _, _, rfl⟩⟩

/-- After every history of calls on an interface and on regions, a read of a model that is not shadowed
returns what it would return if nothing had been computed before, provided that the reads of the two
regions do; so does a lookup. -/
theorem Reached.reads_are_current (reached : s.Reached) (upToDate : (s.coupled i k).UpToDate)
    (unshadowed : s.junction.Unshadowed name) :
    Region.SameUnlessCyclic ((s.coupled i k).read name).1 ((s.coupled i k).uncached.read name).1 ∧
      Region.SameUnlessCyclic ((s.coupled i k).find name).1 ((s.coupled i k).uncached.find name).1 :=
  ⟨reached.coherent.same_read upToDate unshadowed, reached.coherent.same_find upToDate unshadowed⟩

/-- A model is read, what it reads of the left region is written, and the model is read again. -/
theorem reads_are_current_after_write :
    let written := lines.setRegion 0 ((lines.regions 0).setUniform .node "u" 5)
    let declared : Setting ℚ ℚ := { written with
      junction := written.junction.declare "m" (.ofExpr ∅ (.product [.constant 2, .model "u@r0"])) }
    let once := declared.put 0 1 ((declared.coupled 0 1).read "m").2
    let s := once.setRegion 0 ((once.regions 0).setUniform .node "u" 7)
    ((declared.coupled 0 1).read "m").1.toOption.map Field.toArray = some #[10] ∧
      ∃ data, ((s.coupled 0 1).read "m").1 = .ok data ∧
        ((s.coupled 0 1).uncached.read "m").1 = .ok data ∧ data.toArray = #[14] := by
  intro written declared once s
  have writes : ∀ (r : Region ℚ ℚ) (value : ℚ), r.Evolves (r.setUniform .node "u" value) :=
    fun _ value => .call .refl (.setUniform .node "u" value)
  have reached' : declared.Reached := (reached_lines.step (.region 0 (writes _ 5))).step (.declare ..)
  have reached : s.Reached :=
    (reached'.step (.read 0 1 (by decide) "m")).step (.region 0 (writes _ 7))
  have upToDate : (s.coupled 0 1).UpToDate := by
    rintro (- | -)
    · exact (reached.coherent.settled 0).read_same_of_written (by decide +kernel) .node
    · exact (reached.coherent.settled 1).read_same_of_written (by decide +kernel) .node
  have unshadowed : s.junction.Unshadowed "m" := by
    have declares : declared.junction.Unshadowed "m" :=
      Junction.unshadowed_declare (by decide +kernel)
    exact declares.of_uncached_eq (reached'.coherent.uncached_read 0 1 "m")
  have value : ((s.coupled 0 1).read "m").1.toOption.map Field.toArray = some #[14] := by
    decide +kernel
  have same := (Reached.reads_are_current reached upToDate unshadowed).1
  exact ⟨by decide +kernel, same.exists_ok value⟩

/-! ## Changed parameters -/

theorem Coherent.seen_ne_of_parameter (coherent : s.Coherent) {r0 r1 : Region β α}
    (later0 : Region.Precedes (s.regions i) r0) (later1 : Region.Precedes (s.regions k) r1) {p : String}
    (changed : (Coupled.mk s.junction r0 r1).parameter? p ≠ (s.coupled i k).parameter? p) :
    s.junction.seen ≠ some (r0.fingerprint, r1.fingerprint) := by
  intro seen
  obtain ⟨q0, q1, past0, past1, -, noticed⟩ := coherent.noticed
  obtain ⟨same0, same1⟩ := Prod.mk.inj (noticed _ seen)
  refine changed ?_
  rw [Coupled.parameter?, Coupled.parameter?, coupled,
    (coherent.still_of_fingerprint past0 later0 same0).2.parameters,
    (coherent.still_of_fingerprint past1 later1 same1).2.parameters]

/-- A parameter that gets another value by calls on the regions, or on devices that hold them, has a
model that reads it computed anew, where no model of the interface has its name; the values are then
those of a read from scratch, unless another variable is shadowed. -/
theorem Reached.parameter_reaches_models (reached : s.Reached) (apart : i ≠ k) {r0 r1 : Region β α}
    (evolves0 : (s.regions i).Evolves r0) (evolves1 : (s.regions k).Evolves r1)
    {functions : Registry α} {e : Expr β} {p : String}
    (computes : s.junction.Computes name (.ofExpr functions e)) (reads : .parameter p ∈ e.leaves)
    (changed : (Coupled.mk s.junction r0 r1).parameter? p ≠ (s.coupled i k).parameter? p)
    (external : s.junction.models.contains .node p = false) :
    let c := Coupled.mk s.junction r0 r1
    c.refresh.junction.models.isFresh .node name = false ∧
      (s.junction.Unshadowed name → c.UpToDate →
        Region.SameUnlessCyclic (c.read name).1 (c.uncached.read name).1) := by
  intro c
  have coherent := reached.coherent
  have later0 := (evolves0.continues (coherent.settled i)).1
  have later1 := (evolves1.continues (coherent.settled k)).1
  have new := coherent.seen_ne_of_parameter later0 later1 changed
  obtain ⟨q0, q1, -, -, current, -⟩ := coherent.noticed
  refine ⟨current.not_isFresh_refresh new computes reads external, fun unshadowed upToDate => ?_⟩
  have coherent' : ((s.setRegion i r0).setRegion k r1).Coherent := by
    refine (coherent.region evolves0).region ?_
    rwa [regions_setRegion, if_neg apart.symm]
  have same : ((s.setRegion i r0).setRegion k r1).coupled i k = c := by
    rw [coupled, regions_setRegion, regions_setRegion, if_neg apart, if_pos rfl, regions_setRegion,
      if_pos rfl]
    rfl
  rw [← same] at upToDate ⊢
  exact coherent'.same_read upToDate unshadowed

/-- The parameter of the left region is set after a read. -/
theorem parameter_reaches_models_after_read :
    let set := lines.setRegion 0 ((lines.regions 0).setParameter "p" 1)
    let declared : Setting ℚ ℚ := { set with
      junction := set.junction.declare "m" (.ofExpr ∅ (.product [.constant 2, .parameter "p"])) }
    let s := declared.put 0 1 ((declared.coupled 0 1).read "m").2
    let c := Coupled.mk s.junction ((s.regions 0).setParameter "p" 3) (s.regions 1)
    ((declared.coupled 0 1).read "m").1.toOption.map Field.toArray = some #[2] ∧
      c.junction.models.isFresh .node "m" = true ∧
      c.refresh.junction.models.isFresh .node "m" = false ∧
      ∃ data, (c.read "m").1 = .ok data ∧ (c.uncached.read "m").1 = .ok data ∧
        data.toArray = #[6] := by
  intro set declared s c
  have sets : ∀ (r : Region ℚ ℚ) (value : ℚ), r.Evolves (r.setParameter "p" value) :=
    fun _ value => .call .refl (.setParameter "p" value)
  have reached' : declared.Reached := (reached_lines.step (.region 0 (sets _ 1))).step (.declare ..)
  have reached : s.Reached := reached'.step (.read 0 1 (by decide) "m")
  have declarations := reached'.coherent.uncached_read 0 1 "m"
  have computes := (Junction.computes_declare ..).of_uncached_eq declarations
  have unshadowed : s.junction.Unshadowed "m" :=
    (Junction.unshadowed_declare (by decide +kernel)).of_uncached_eq declarations
  have upToDate : c.UpToDate := by
    rintro (- | -)
    · exact ((sets _ 3).continues (reached.coherent.settled 0)).2.read_same_of_written
        (by decide +kernel) .node
    · exact (reached.coherent.settled 1).read_same_of_written (by decide +kernel) .node
  have value : (c.read "m").1.toOption.map Field.toArray = some #[6] := by decide +kernel
  have changed : c.parameter? "p" ≠ (s.coupled 0 1).parameter? "p" := by decide +kernel
  have external : s.junction.models.contains .node "p" = false := by decide +kernel
  obtain ⟨stale, same⟩ := Reached.parameter_reaches_models reached (by decide) (sets _ 3) .refl
    computes (by decide) changed external
  exact ⟨by decide +kernel, by decide +kernel, stale,
    (same unshadowed upToDate).exists_ok value⟩

/-- A parameter that shares its name with a model of the interface does not reach a model that reads it
when it is set after a read. -/
theorem parameter_missed_where_shadowed :
    let set := lines.setRegion 0 ((lines.regions 0).setParameter "p" 1)
    let shadowed : Setting ℚ ℚ := { set with junction := set.junction.setUniform "p" 0 }
    let declared : Setting ℚ ℚ := { shadowed with
      junction := shadowed.junction.declare "m" (.ofExpr ∅ (.parameter "p")) }
    let s := declared.put 0 1 ((declared.coupled 0 1).read "m").2
    let c := Coupled.mk s.junction ((s.regions 0).setParameter "p" 2) (s.regions 1)
    s.Reached ∧ (s.regions 0).Evolves ((s.regions 0).setParameter "p" 2) ∧
      s.junction.Computes "m" (.ofExpr ∅ (.parameter "p")) ∧
      (s.coupled 0 1).parameter? "p" = some 1 ∧ c.parameter? "p" = some 2 ∧ c.UpToDate ∧
      (c.read "m").1.toOption.map Field.toArray = some #[1] ∧
      (c.uncached.read "m").1.toOption.map Field.toArray = some #[2] := by
  intro set shadowed declared s c
  have sets : ∀ (r : Region ℚ ℚ) (value : ℚ), r.Evolves (r.setParameter "p" value) :=
    fun _ value => .call .refl (.setParameter "p" value)
  have reached' : declared.Reached :=
    ((reached_lines.step (.region 0 (sets _ 1))).step (.setUniform "p" 0)).step (.declare ..)
  have reached : s.Reached := reached'.step (.read 0 1 (by decide) "m")
  have computes := (Junction.computes_declare ..).of_uncached_eq
    (reached'.coherent.uncached_read 0 1 "m")
  have upToDate : c.UpToDate := by
    rintro (- | -)
    · exact ((sets _ 2).continues (reached.coherent.settled 0)).2.read_same_of_written
        (by decide +kernel) .node
    · exact (reached.coherent.settled 1).read_same_of_written (by decide +kernel) .node
  exact ⟨reached, sets _ 2, computes, by decide +kernel, by decide +kernel, upToDate,
    by decide +kernel, by decide +kernel⟩

end Setting

end FiniteVolume
