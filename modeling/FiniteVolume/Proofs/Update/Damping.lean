import FiniteVolume.Proofs.Numeric.Real
import FiniteVolume.Proofs.Update.Nodes

/-!
The damping policy, in exact arithmetic with the real logarithm and exponential.

A raw step above the scale is compressed: its size grows with the logarithm, up to a bound. Where the
compressed step would take a positive value to zero or below, the value is multiplied by a factor between
zero and one instead, which changes it by less.
-/
namespace FiniteVolume

namespace Settings

variable {settings : Settings ℝ}

theorem damping_pos (valid : settings.validate = .ok ()) :
    0 < settings.update.dampScale ∧ 0 < settings.update.maxDamp := by
  have none : settings.faults = [] := by
    rw [validate] at valid
    split at valid
    · assumption
    · cases valid
  simp only [faults, List.append_eq_nil_iff, List.map_eq_nil_iff, List.filter_eq_nil_iff] at none
  obtain ⟨⟨-, constants⟩, -⟩ := none
  simpa [isPositiveConstant, Scalar.isFinite, Scalar.lt] using
    And.intro (constants _ (.head _)) (constants _ (.tail _ (.head _)))

end Settings

structure Damped (u : UpdateSettings ℝ) (old raw step : ℝ) : Prop where
  zero : raw = 0 → step = 0
  pos : 0 < raw → 0 < step
  neg : raw < 0 → step < 0
  le_raw : |step| ≤ |raw|
  le_bound : |step| ≤ u.dampScale * max 1 u.maxDamp
  unchanged : |raw| ≤ u.dampScale → ¬(0 < old ∧ old + raw ≤ 0) → step = raw
  positive : 0 < old → 0 < old + step

namespace UpdatePolicy

variable {u : UpdateSettings ℝ} {old raw : ℝ}

noncomputable def compressedSize (u : UpdateSettings ℝ) (raw : ℝ) : ℝ :=
  if u.dampScale < |raw| then u.dampScale * min (Real.log (1 + |raw| / u.dampScale)) u.maxDamp
  else |raw|

/-- The step after compression, before it is held against the old value. -/
noncomputable def compress (u : UpdateSettings ℝ) (raw : ℝ) : ℝ :=
  if raw < 0 then -compressedSize u raw else compressedSize u raw

theorem dampedStep_eq (u : UpdateSettings ℝ) (old raw : ℝ) : dampedStep u old raw =
    if 0 < old ∧ old + compress u raw ≤ 0 then
      old * Real.exp (max (compress u raw / old) (-u.maxDamp)) - old
    else compress u raw := by
  have compressed : compress u raw = if u.dampScale < |raw| then
      (if raw < 0 then -1 else 1) * u.dampScale * min (Real.log (1 + |raw| / u.dampScale)) u.maxDamp
      else raw := by
    unfold compress compressedSize
    rcases lt_or_ge raw 0 with below | above
    · simp only [if_pos below, abs_of_neg below]
      split <;> ring
    · simp only [if_neg above.not_gt, abs_of_nonneg above]
      split <;> ring
  rw [compressed]
  simp [dampedStep, Scalar.lt, Scalar.le, Scalar.abs, Scalar.signum, Scalar.min, Scalar.max,
    Scalar.log, Scalar.exp, Precision.narrow]

section

variable (scale : 0 < u.dampScale) (bound : 0 < u.maxDamp)
include scale

theorem compressedSize_le_abs : compressedSize u raw ≤ |raw| := by
  unfold compressedSize
  split
  · have log_le : Real.log (1 + |raw| / u.dampScale) ≤ |raw| / u.dampScale := by
      have := Real.log_le_sub_one_of_pos (x := 1 + |raw| / u.dampScale) (by positivity)
      linarith
    calc u.dampScale * min (Real.log (1 + |raw| / u.dampScale)) u.maxDamp
        ≤ u.dampScale * (|raw| / u.dampScale) := by gcongr; exact (min_le_left _ _).trans log_le
      _ = |raw| := mul_div_cancel₀ _ scale.ne'
  · exact le_rfl

theorem compressedSize_le_bound : compressedSize u raw ≤ u.dampScale * max 1 u.maxDamp := by
  unfold compressedSize
  split
  · gcongr
    exact (min_le_right _ _).trans (le_max_right _ _)
  · calc |raw| ≤ u.dampScale * 1 := by linarith
      _ ≤ u.dampScale * max 1 u.maxDamp := by gcongr; exact le_max_left _ _

include bound in
theorem compressedSize_pos (moves : raw ≠ 0) : 0 < compressedSize u raw := by
  have size : 0 < |raw| := abs_pos.mpr moves
  unfold compressedSize
  split
  · have log_pos : 0 < Real.log (1 + |raw| / u.dampScale) :=
      Real.log_pos (lt_add_of_pos_right 1 (by positivity))
    exact mul_pos scale (lt_min log_pos bound)
  · exact size

include bound in
theorem compressedSize_nonneg : 0 ≤ compressedSize u raw := by
  rcases eq_or_ne raw 0 with rfl | moves
  · simp [compressedSize, scale.not_gt]
  · exact (compressedSize_pos scale bound moves).le

include bound in
theorem abs_compress : |compress u raw| = compressedSize u raw := by
  unfold compress
  split
  · rw [abs_neg, abs_of_nonneg (compressedSize_nonneg scale bound)]
  · exact abs_of_nonneg (compressedSize_nonneg scale bound)

omit scale in
theorem compress_of_le (small : |raw| ≤ u.dampScale) : compress u raw = raw := by
  rw [compress, compressedSize, if_neg small.not_gt]
  split
  · rw [abs_of_neg ‹_›, neg_neg]
  · exact abs_of_nonneg (not_lt.mp ‹_›)

end

/-- A factor between zero and one takes a positive value down by less than all of it. -/
theorem factor_step {factor : ℝ} (old_pos : 0 < old) (down : factor < 0) :
    -old < old * Real.exp factor - old ∧ old * Real.exp factor - old < 0 := by
  have less : old * Real.exp factor < old * 1 :=
    mul_lt_mul_of_pos_left (Real.exp_lt_one_iff.mpr down) old_pos
  have pos : 0 < old * Real.exp factor := mul_pos old_pos (Real.exp_pos factor)
  constructor <;> linarith

/-- Damping keeps its promises for all constants above zero. -/
theorem damped_dampedStep (scale : 0 < u.dampScale) (bound : 0 < u.maxDamp) (old raw : ℝ) :
    Damped u old raw (dampedStep u old raw) := by
  have size : |compress u raw| = compressedSize u raw := abs_compress scale bound
  have le_raw : compressedSize u raw ≤ |raw| := compressedSize_le_abs scale
  have le_bound : compressedSize u raw ≤ u.dampScale * max 1 u.maxDamp := compressedSize_le_bound scale
  rw [dampedStep_eq]
  split
  case isTrue crosses =>
    -- The compressed step is negative and at least as large as the old value.
    obtain ⟨old_pos, crosses⟩ := crosses
    have down : compress u raw < 0 := by linarith
    have raw_neg : raw < 0 := by
      by_contra above
      rw [compress, if_neg above] at down
      exact down.not_ge (compressedSize_nonneg scale bound)
    have ratio_neg : max (compress u raw / old) (-u.maxDamp) < 0 :=
      max_lt (div_neg_of_neg_of_pos down old_pos) (neg_neg_of_pos bound)
    obtain ⟨above, below⟩ := factor_step old_pos ratio_neg
    have smaller : |old * Real.exp (max (compress u raw / old) (-u.maxDamp)) - old|
        ≤ compressedSize u raw := by
      rw [← size, abs_of_neg below, abs_of_neg down]
      linarith
    exact {
      zero := fun still => absurd still raw_neg.ne
      pos := fun up => absurd up raw_neg.not_gt
      neg := fun _ => below
      le_raw := smaller.trans le_raw
      le_bound := smaller.trans le_bound
      unchanged := fun small stays => by
        rw [compress_of_le small] at crosses
        exact absurd ⟨old_pos, crosses⟩ stays
      positive := fun _ => by linarith }
  case isFalse stays =>
    exact {
      zero := fun still => by rw [compress_of_le (by simp [still, scale.le]), still]
      pos := fun up => by
        rw [compress, if_neg up.not_gt]
        exact compressedSize_pos scale bound up.ne'
      neg := fun down => by
        rw [compress, if_pos down]
        exact neg_neg_of_pos (compressedSize_pos scale bound down.ne)
      le_raw := size ▸ le_raw
      le_bound := size ▸ le_bound
      unchanged := fun small _ => compress_of_le small
      positive := fun old_pos => by
        by_contra crosses
        exact stays ⟨old_pos, not_lt.mp crosses⟩ }

end UpdatePolicy

namespace UpdateSite

/-- An update by the damping policy under accepted settings takes a damped step at every node. -/
theorem apply_logDamp {settings : Settings ℝ} (valid : settings.validate = .ok ()) {site : UpdateSite ℝ}
    (damping : site.policy = .logDamp) (own : site.settings = settings.update) {values raw : Array ℝ}
    (sizes : values.size = raw.size) (log : Log) :
    ∃ stats new log', site.apply values raw log = (.ok stats, new, log') ∧
      ∃ same : new.size = values.size, ∀ (i : Nat) (h : i < values.size), ∃ step,
        step = UpdatePolicy.dampedStep settings.update values[i] raw[i] ∧
        new[i] = values[i] + step ∧ Damped settings.update values[i] raw[i] step := by
  obtain ⟨scale, bound⟩ := Settings.damping_pos valid
  have step : ∀ old raw : ℝ, site.policy.step? site.settings old raw =
      some { step := UpdatePolicy.dampedStep settings.update old raw
             value := old + UpdatePolicy.dampedStep settings.update old raw } := by
    intro old raw
    rw [damping, own]
    rfl
  obtain ⟨updates, steps⟩ : ∃ updates, site.Steps (values.toList.zip raw.toList) updates :=
    exists_steps fun n _ stop => by
      rw [step] at stop
      cases stop
  have length := steps.length sizes
  refine ⟨_, _, _, apply_of_steps sizes steps, by simp [length], fun i h => ?_⟩
  have taken := (step values[i] raw[i]).symm.trans (steps.getElem h (sizes ▸ h) (length ▸ h))
  refine ⟨_, rfl, ?_, UpdatePolicy.damped_dampedStep scale bound _ _⟩
  simp [← Option.some.inj taken]

/-- Under the settings of a new assembly, a value of one stays positive when it is told to fall by two. -/
theorem apply_logDamp_default : (({} : Settings ℝ).validate = .ok ()) ∧
    ∃ stats new log, apply (⟨.logDamp, {}, "n", { device := "d" }⟩ : UpdateSite ℝ) #[(1 : ℝ)] #[-2] {} =
      (.ok stats, new, log) ∧ ∃ same : new.size = 1, (0 : ℝ) < new[0] := by
  have valid : ({} : Settings ℝ).validate = .ok () := by
    have severe : Severity.error ≤ Severity.fatal := by decide
    have ratio : (10 : ℝ) / 10 ^ 4 < 1 := by norm_num
    have none : ({} : Settings ℝ).faults = [] := by
      simp [Settings.faults, isPositiveConstant, MeasureNames.toList, Scalar.isFinite, Scalar.lt,
        OfScientific.ofScientific, BaseScalar.ofDecimal, severe, ratio]
    rw [Settings.validate, none]
  have damping : (⟨.logDamp, {}, "n", { device := "d" }⟩ : UpdateSite ℝ).policy = .logDamp := rfl
  have sizes : #[(1 : ℝ)].size = #[(-2 : ℝ)].size := rfl
  obtain ⟨stats, new, log, applied, same, stepped⟩ := apply_logDamp valid damping rfl sizes {}
  obtain ⟨step, -, new_eq, damped⟩ := stepped 0 Nat.one_pos
  refine ⟨valid, stats, new, log, applied, same, ?_⟩
  rw [new_eq]
  exact damped.positive one_pos

end UpdateSite

end FiniteVolume
