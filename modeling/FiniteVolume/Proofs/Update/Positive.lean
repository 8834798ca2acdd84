import FiniteVolume.Proofs.Numeric.Order
import FiniteVolume.Proofs.Update.Nodes

/-!
The positive policy.

It keeps positive values positive in any arithmetic: of rounding it is only asked that the values compared
are numbers. Where the sum of the old value and the raw step is not positive, a fraction of the old value
replaces it, half of the old value if the fraction underflows, and as a last resort the old value itself.
-/
namespace FiniteVolume

variable {β α : Type} [BaseScalar β] [Scalar α] [Precision β α]

open Precision

/-- The new value at a node: the sum where it is positive, else the first positive one of a fraction of the
old value, its half and the old value. -/
structure StaysPositive (u : UpdateSettings β) (old raw new : α) : Prop where
  positive : Scalar.lt 0 new
  step : Scalar.lt 0 (old + raw) → new = old + raw
  clamp : Scalar.lt 0 (old + raw) = false → new =
    if Scalar.lt 0 (old * narrow u.floorRatio) then old * narrow u.floorRatio
    else if Scalar.lt 0 (old * narrow 0.5) then old * narrow 0.5
    else old

namespace UpdatePolicy

variable {u : UpdateSettings β} {old raw : α} {update : NodeUpdate α}

theorem step?_positive_eq_none : positive.step? u old raw = none ↔ Scalar.le old 0 := by
  simp only [step?]
  split
  · simp [*]
  · split <;> simp [*]

theorem clamped_of_step?_positive (step : positive.step? u old raw = some update) :
    update.clamped = Scalar.le (old + raw) 0 := by
  have above : ¬Scalar.le old 0 := fun below => by
    rw [step?_positive_eq_none.mpr below] at step
    cases step
  rw [step?, if_neg above] at step
  split at step <;> cases step <;> simp [*]

theorem lt_positiveFloor (old_pos : Scalar.lt 0 old) : Scalar.lt 0 (positiveFloor u old) := by
  simp only [positiveFloor]
  split
  · assumption
  · split <;> assumption

section

variable [OrderedScalar α]

theorem le_zero_iff {x : α} (number : IsNumber x) : Scalar.le x 0 = !Scalar.lt 0 x := by
  cases below : Scalar.le x 0 with
  | true =>
    cases above : Scalar.lt 0 x with
    | true => rw [OrderedScalar.not_le_of_lt above] at below; cases below
    | false => rfl
  | false => rw [OrderedScalar.lt_of_not_le OrderedScalar.isNumber_zero number below]; rfl

theorem staysPositive_of_step? (old_number : IsNumber old) (sum_number : IsNumber (old + raw))
    (step : positive.step? u old raw = some update) : StaysPositive u old raw update.value := by
  have old_pos : Scalar.lt 0 old := by
    have above : ¬Scalar.le old 0 := fun below => by
      rw [step?_positive_eq_none.mpr below] at step
      cases step
    simpa [le_zero_iff old_number] using above
  rw [step?, if_neg (by simp [le_zero_iff old_number, old_pos]), le_zero_iff sum_number] at step
  cases above : Scalar.lt 0 (old + raw) with
  | true =>
    rw [above] at step
    cases step
    exact ⟨above, fun _ => rfl, fun not => by simp [above] at not⟩
  | false =>
    rw [above] at step
    cases step
    exact ⟨lt_positiveFloor old_pos, fun not => by simp [above] at not, fun _ => rfl⟩

/-- A sum that is no number is no reason to clamp. -/
theorem value_of_step?_positive (none : ¬IsNumber (old + raw))
    (step : positive.step? u old raw = some update) : update.value = old + raw := by
  have apart : Scalar.le (old + raw) 0 = false :=
    Bool.eq_false_iff.mpr fun below => none (OrderedScalar.isNumber_of_le below).1
  rw [step?, apart] at step
  split at step <;> cases step
  rfl

end

end UpdatePolicy

namespace UpdateSite

/-- The records of the nodes whose sum is zero or below, in order. -/
def crossings (site : UpdateSite β) (nodes : List (α × α)) : List LogRecord :=
  (nodes.zipIdx.filter fun n => Scalar.le (n.1.1 + n.1.2) 0).map (site.clampRecord ·.2)

variable {site : UpdateSite β} {nodes : List (α × α)} {updates : List (NodeUpdate α)}

theorem step?_eq_none (positive : site.policy = .positive) {old raw : α} :
    site.policy.step? site.settings old raw = none ↔ Scalar.le old 0 := by
  rw [positive, UpdatePolicy.step?_positive_eq_none]

theorem exists_steps_positive (positive : site.policy = .positive) :
    (∃ updates, site.Steps nodes updates) ↔ ∀ n ∈ nodes, Scalar.le n.1 0 = false := by
  constructor
  · intro ⟨updates, steps⟩ n member
    obtain ⟨update, step⟩ := steps.exists_step n member
    refine Bool.eq_false_iff.mpr fun below => ?_
    rw [(step?_eq_none positive).mpr below] at step
    cases step
  · intro all
    refine exists_steps fun n member stop => ?_
    have below := (step?_eq_none positive).mp stop
    rw [all n member] at below
    cases below

omit [Scalar α] in
theorem mem_zip_iff {values raw : Array α} (sizes : values.size = raw.size) {n : α × α} :
    n ∈ values.toList.zip raw.toList ↔
      ∃ (i : Nat) (h : i < values.size) (h' : i < raw.size), n = (values[i], raw[i]) := by
  simp [List.mem_iff_getElem, ← sizes, eq_comm]

theorem Steps.clampRecords_positive (positive : site.policy = .positive)
    (steps : site.Steps nodes updates) : site.clampRecords 0 updates = site.crossings nodes :=
  steps.clampRecords_eq (fun n => Scalar.le (n.1 + n.2) 0) fun _ _ _ step =>
    UpdatePolicy.clamped_of_step?_positive (positive ▸ step)

variable [OrderedScalar α] {values raw : Array α}

/-- The positive policy keeps values positive, in any arithmetic whose comparisons order the old values and
the sums; a sum that is no number stands. It succeeds exactly if no value is zero or below, with a warning
for each node that is clamped; otherwise the first such node ends it, with a fatal record. -/
theorem apply_positive (positive : site.policy = .positive) (sizes : values.size = raw.size)
    (numbers : ∀ old ∈ values, IsNumber old) (log : Log) :
    ((∃ stats, (site.apply values raw log).1 = .ok stats) ↔ ∀ old ∈ values, Scalar.le old 0 = false) ∧
    (∀ stats new log', site.apply values raw log = (.ok stats, new, log') →
      ∃ same : new.size = values.size,
        (∀ (i : Nat) (h : i < values.size),
          (IsNumber (values[i] + raw[i]) → StaysPositive site.settings values[i] raw[i] new[i]) ∧
          (¬IsNumber (values[i] + raw[i]) → new[i] = values[i] + raw[i])) ∧
        log'.records = log.records ++ site.crossings (values.toList.zip raw.toList)) ∧
    ∀ (i : Nat) (h : i < values.size), Scalar.le values[i] 0 = true →
      (∀ (j : Nat) (h : j < i), Scalar.le values[j] 0 = false) →
      (site.apply values raw log).1 =
        .error (.nonPositive site.scope site.variableName i (widen values[i])) ∧
      (site.apply values raw log).2.2.records = log.records
        ++ site.crossings ((values.toList.zip raw.toList).take i) ++ [site.stopRecord i values[i]] := by
  refine ⟨?_, ?_, ?_⟩
  · rw [exists_ok_iff, exists_steps_positive positive]
    constructor
    · rintro ⟨-, all⟩ old member
      obtain ⟨i, h, rfl⟩ := Array.mem_iff_getElem.mp member
      exact all (values[i], raw[i]) ((mem_zip_iff sizes).mpr ⟨i, h, sizes ▸ h, rfl⟩)
    · refine fun all => ⟨sizes, fun n member => ?_⟩
      obtain ⟨i, h, -, rfl⟩ := (mem_zip_iff sizes).mp member
      exact all _ (Array.getElem_mem h)
  · intro stats new log' applied
    obtain ⟨-, updates, steps, -, rfl, rfl⟩ := apply_eq_ok_iff.mp applied
    have length := steps.length sizes
    refine ⟨by simp [length], fun i h => ?_, by rw [steps.clampRecords_positive positive]⟩
    have step := positive ▸ steps.getElem h (sizes ▸ h) (length ▸ h)
    refine ⟨fun sum => ?_, fun none => ?_⟩
    · simpa using UpdatePolicy.staysPositive_of_step? (numbers _ (Array.getElem_mem h)) sum step
    · simpa using UpdatePolicy.value_of_step?_positive none step
  · intro i h below first
    have before : ∀ n ∈ (values.toList.zip raw.toList).take i, Scalar.le n.1 0 = false := by
      intro n member
      obtain ⟨j, bound, rfl⟩ := List.mem_iff_getElem.mp member
      simpa using first j (by simp at bound; omega)
    obtain ⟨updates, steps⟩ := (exists_steps_positive positive).mpr before
    obtain ⟨result, log_eq⟩ := apply_of_stop log sizes h steps
      ((step?_eq_none positive).mpr below)
    exact ⟨result, by rw [log_eq, steps.clampRecords_positive positive]⟩

/-- In binary64 the smallest positive number has no smaller positive fraction, and stays. -/
theorem apply_positive_underflow : ∃ (site : UpdateSite Float) (values raw : Array Float),
    site = ⟨.positive, {}, "n", { device := "d" }⟩ ∧
    values = #[1.0, 5e-324, 2.0] ∧ raw = #[-3.0, -1.0, 0.5] ∧
    (∀ old ∈ values, Scalar.le old 0 = false) ∧ ∃ sizes : values.size = raw.size,
    ∃ stats new log, site.apply values raw {} = (.ok stats, new, log) ∧
      (∃ same : new.size = values.size, ∀ (i : Nat) (h : i < values.size),
        StaysPositive site.settings values[i] raw[i] new[i]) ∧
      log.records = [site.clampRecord 0, site.clampRecord 1] := by
  -- The literals stay out of sight until they are evaluated.
  obtain ⟨site, site_eq⟩ : ∃ site : UpdateSite Float, site =
      ⟨.positive, {}, "n", { device := "d" }⟩ := ⟨_, rfl⟩
  obtain ⟨values, values_eq⟩ : ∃ values : Array Float, values = #[1.0, 5e-324, 2.0] := ⟨_, rfl⟩
  obtain ⟨raw, raw_eq⟩ : ∃ raw : Array Float, raw = #[-3.0, -1.0, 0.5] := ⟨_, rfl⟩
  have sizes : values.size = raw.size := by subst values_eq raw_eq; decide +kernel
  have numbers : ∀ old ∈ values, IsNumber old := by subst values_eq; decide +kernel
  have sums : ∀ (i : Nat) (h : i < values.size), IsNumber (values[i] + raw[i]) := by
    subst values_eq raw_eq
    decide +kernel +revert
  have above : ∀ old ∈ values, Scalar.le old 0 = false := by subst values_eq; decide +kernel
  have positive : site.policy = .positive := by rw [site_eq]
  obtain ⟨ok, kept, -⟩ := apply_positive positive sizes numbers {}
  obtain ⟨stats, applied⟩ := ok.mpr above
  obtain ⟨same, stays, records⟩ := kept stats _ _ (Prod.ext applied rfl)
  refine ⟨site, values, raw, site_eq, values_eq, raw_eq, above, sizes, stats, _, _,
    Prod.ext applied rfl, ⟨same, fun i h => (stays i h).1 (sums i h)⟩, records.trans ?_⟩
  subst site_eq values_eq raw_eq
  decide +kernel

end UpdateSite

end FiniteVolume
