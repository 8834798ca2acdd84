import FiniteVolume.Proofs.Device.Outcome
import FiniteVolume.Proofs.Numeric.Exact
import FiniteVolume.Proofs.Update.Extremes

/-!
Statistics of an update.

The statistics of an equation are the largest sizes among the steps of its nodes, those of the device the
largest among its equations. Nodes are compared in their order and equations in the order of registration,
and of equal sizes the first counts (`Device.statistics_are_largest`).
-/
namespace FiniteVolume

variable {β α : Type} [BaseScalar β] [Scalar α] [Precision β α]

/-! ## One equation -/

namespace UpdateSite

/-- The updates of all nodes: the step of every node is what the policy makes of its raw step, and takes it
from the old value to the new one. -/
structure Updates (site : UpdateSite β) (values raw new : Array α) (updates : List (NodeUpdate α)) : Prop where
  size_raw : raw.size = values.size
  length : updates.length = values.size
  new_eq : new = (updates.map (·.value)).toArray
  step : ∀ (i : Nat) (h : i < values.size) (h' : i < raw.size) (h'' : i < updates.length),
    site.policy.step? site.settings values[i] raw[i] = some updates[i]
  change : ∀ (i : Nat) (h : i < values.size) (h' : i < updates.length),
    if updates[i].clamped then updates[i].step = updates[i].value - values[i]
    else updates[i].value = values[i] + updates[i].step

theorem updates_of_apply {site : UpdateSite β} {values raw new : Array α} {log log' : Log}
    {stats : UpdateStats β} (applied : site.apply values raw log = (.ok stats, new, log')) :
    ∃ updates, site.Updates values raw new updates ∧ stats = UpdateStats.tally {} site.settings 0 updates := by
  obtain ⟨sizes, updates, steps, same, rfl, -⟩ := apply_eq_ok_iff.mp applied
  have length := steps.length sizes
  exact ⟨updates, {
    size_raw := sizes.symm
    length
    new_eq := rfl
    step := fun i h h' h'' => steps.getElem h h' h''
    change := fun i h h' => UpdatePolicy.change_of_step? (steps.getElem h (sizes ▸ h) h') }, same⟩

end UpdateSite

/-! ## All equations -/

namespace Device

/-- The statistics of an equation are those of the step on its rows. Without rows they are left. -/
structure Counted (settings : UpdateSettings β) (solution : Array α) (p : Parts β α)
    (x x' : String × BulkEquation β) : Prop where
  same : x' = (x.1, { x.2 with last := x'.2.last })
  passed : p.slot? x = none → x' = x
  updated : ∀ r start, p.slot? x = some (r, start) → ∃ site values new log log',
    site.policy = x.2.policy ∧ site.settings = settings ∧
      UpdateSite.apply site values (rawOf solution r start) log = (.ok x'.2.last, new, log')

variable {settings : UpdateSettings β} {solution : Array α} {s s' : UpdateState β α} {p p' : Parts β α}
  {x x' : String × BulkEquation β} {items items' : List (String × BulkEquation β)} {e' : BulkEquation β}

theorem Counted.of_bare_eq (counted : Counted settings solution p' x x') (same : p'.bare = p.bare) :
    Counted settings solution p x x' where
  same := counted.same
  passed none := by
    refine counted.passed (Option.not_isSome_iff_eq_none.mp ?_)
    rw [Parts.isSome_slot?_of_bare_eq same, none]
    exact Bool.false_ne_true
  updated r start slot := by
    obtain ⟨r', slot', bare⟩ := Parts.slot?_eq_some_of_bare_eq same slot
    rw [← rawOf_of_bare_eq solution bare]
    exact counted.updated r' start slot'

theorem Turn.counted (turn : Turn settings solution s x s' e') :
    Counted settings solution s.parts x (x.1, e') := by
  cases turn with
  | pass slot => exact ⟨rfl, fun _ => rfl, fun r start here => nomatch slot.symm.trans here⟩
  | update slot inside ran =>
    obtain ⟨old, stats, new, -, applied, -, rfl⟩ := BulkEquation.update_eq_ok_iff.mp ran
    refine ⟨rfl, fun none => (nomatch slot.symm.trans none), fun r start here => ?_⟩
    cases slot.symm.trans here
    exact ⟨_, _, new, _, _, rfl, rfl, applied⟩

theorem Turns.counted (turns : Turns settings solution s items s' items') :
    List.Forall₂ (Counted settings solution s.parts) items items' := by
  induction turns with
  | nil => exact .nil
  | cons turn _ ih =>
    exact .cons turn.counted (ih.imp fun _ _ counted => counted.of_bare_eq turn.bare_eq)

/-- The statistics of an update are the largest sizes, of nodes and of equations, and the first ones at
that. -/
theorem statistics_are_largest [OrderedScalar β] [ZeroSized β α] :
    (∀ (site : UpdateSite β) (values raw new : Array α) (log log' : Log) (stats : UpdateStats β),
      site.apply values raw log = (.ok stats, new, log') →
      ∃ updates, site.Updates values raw new updates ∧
        LargestOf (NodeUpdate.allSizes site.settings updates) stats ∧
        ((∀ n ∈ updates, Scalar.eq n.step 0) → stats = {})) ∧
    ∀ (d d' : Device β α) (solution : Array α) (stats : UpdateStats β),
      d.update solution = (.ok stats, d') →
      List.Forall₂ (Counted d.settings.update solution d.parts) d.bulkEquations d'.bulkEquations ∧
        LargestOf ((d'.bulkEquations.filter fun x => (d.parts.slot? x).isSome).map (·.2.last)) stats ∧
        d'.lastUpdate = stats := by
  refine ⟨fun site values raw new log log' stats applied => ?_, fun d d' solution stats ran => ?_⟩
  · obtain ⟨updates, all, rfl⟩ := UpdateSite.updates_of_apply applied
    have largest : LargestOf (NodeUpdate.allSizes site.settings updates)
        (UpdateStats.tally {} site.settings 0 updates) := by
      rw [UpdateStats.tally_eq]
      exact .foldl_max _
    exact ⟨updates, all, largest, largest.eq_empty_of_still⟩
  · have outcome := d.update_outcome solution
    rw [ran] at outcome
    cases outcome with
    | @done s _ carried stored =>
      refine ⟨carried.turns.counted, ?_, stored⟩
      rw [carried.turns.stats_eq]
      exact .foldl_max _

/-- The largest raw step is clamped, so that a smaller one counts; and two equations take steps of one
size. Nodes are updated in pairs and equations in rational numbers. -/
theorem statistics_are_largest_of_two_regions :
    let site : UpdateSite Float := ⟨.positive, {}, "n", { device := "device" }⟩
    let values : Array Extended := #[⟨1, 0⟩, ⟨2, 0⟩]
    let raw : Array Extended := #[⟨-4, 0⟩, ⟨3, 0⟩]
    let mesh : Mesh ℚ := ⟨.segment, #[⟨0, 0, 0⟩, ⟨1, 0, 0⟩], #[⟨0, 1⟩], #[]⟩
    let solve (region : String) : Change ℚ ℚ := .addEquation region { name := "e", variableName := "u" }
    let d : Device ℚ ℚ := after { name := "device", settings := {} }
      [.addRegion "left" mesh, .addRegion "right" mesh, solve "left", solve "right", .claimRows]
    (∃ stats new log', site.apply values raw {} = (.ok stats, new, log') ∧ stats.absNode = 1 ∧
      ∃ updates, site.Updates values raw new updates ∧
        LargestOf (NodeUpdate.allSizes site.settings updates) stats) ∧
    ∃ stats d', d.update #[1, -3, 3, 2] = (.ok stats, d') ∧ stats.abs = (3, 1) ∧ d'.lastUpdate = stats ∧
      LargestOf ((d'.bulkEquations.filter fun x => (d.parts.slot? x).isSome).map (·.2.last)) stats := by
  intro site values raw mesh solve d
  have applies : (site.apply values raw {}).1.toOption.map (·.absNode) = some 1 := by decide +kernel
  have succeeds : (d.update #[1, -3, 3, 2]).1.toOption.map (·.abs) = some (3, 1) := by decide +kernel
  clear_value site values raw d
  have node := (@statistics_are_largest Float Extended _ _ _ _ _).1
  have device := (@statistics_are_largest ℚ ℚ _ _ _ _ _).2
  constructor
  · rcases applied : site.apply values raw {} with ⟨fault | stats, new, log'⟩
    · rw [applied] at applies
      cases applies
    · rw [applied] at applies
      obtain ⟨updates, all, largest, -⟩ := node site values raw new _ log' stats applied
      exact ⟨stats, new, log', rfl, Option.some.inj applies, updates, all, largest⟩
  · rcases ran : d.update #[1, -3, 3, 2] with ⟨fault | stats, d'⟩
    · rw [ran] at succeeds
      cases succeeds
    · rw [ran] at succeeds
      obtain ⟨-, largest, stored⟩ := device d d' _ stats ran
      exact ⟨stats, d', rfl, Option.some.inj succeeds, stored, largest⟩

end Device

end FiniteVolume
