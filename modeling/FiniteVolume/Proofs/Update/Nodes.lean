import Mathlib.Data.List.Forall2
import FiniteVolume.Equation.Update

/-!
Updates node by node.

An update takes the nodes in order and stops at the first that has no step (`Stopped`). The nodes before
it are updated as they would be without it: their values, the statistics of their steps and the warnings
of those that are clamped are functions of the list of their updates.
-/
namespace FiniteVolume

variable {β α : Type} [BaseScalar β] [Scalar α] [Precision β α]

def UpdateStats.tally (s : UpdateStats β) (u : UpdateSettings β) (node : Nat)
    (updates : List (NodeUpdate α)) : UpdateStats β :=
  (updates.zipIdx node).foldl (fun s n => s.record u n.2 n.1) s

namespace UpdateSite

variable (site : UpdateSite β)

def clampRecord (node : Nat) : LogRecord where
  severity := .warning
  scope := site.scope
  message := "solution variable \"" ++ site.variableName
    ++ s!"\" would become non-positive at node {node}; clamped"

/-- The record of a node that should have had a positive value. -/
def stopRecord (node : Nat) (old : α) : LogRecord where
  severity := .fatal
  scope := site.scope
  message := "solution variable \"" ++ site.variableName ++ "\" is non-positive ("
    ++ Scalar.text old ++ s!") at node {node}"

def clampRecords (node : Nat) (updates : List (NodeUpdate α)) : List LogRecord :=
  ((updates.zipIdx node).filter (·.1.clamped)).map (site.clampRecord ·.2)

/-- Nodes, given by value and raw step, with the updates that the policy gives them. -/
def Steps (nodes : List (α × α)) (updates : List (NodeUpdate α)) : Prop :=
  List.Forall₂ (fun n update => site.policy.step? site.settings n.1 n.2 = some update) nodes updates

variable {site} {node : Nat} {stats : UpdateStats β} {log : Log} {nodes : List (α × α)}
  {updates : List (NodeUpdate α)}

theorem records_warn (site : UpdateSite β) (node : Nat) (clamped : Bool) (log : Log) :
    site.warn node clamped log = ⟨log.records ++ if clamped then [site.clampRecord node] else []⟩ := by
  cases clamped
  · simp [warn]
  · rfl

omit [Scalar α] [Precision β α] in
theorem clampRecords_cons (site : UpdateSite β) (node : Nat) (update : NodeUpdate α)
    (updates : List (NodeUpdate α)) : site.clampRecords node (update :: updates) =
      (if update.clamped then [site.clampRecord node] else [])
        ++ site.clampRecords (node + 1) updates := by
  cases clamped : update.clamped <;> simp [clampRecords, clamped]

theorem applyFrom_of_steps (steps : site.Steps nodes updates) :
    site.applyFrom node stats log nodes = (.ok (stats.tally site.settings node updates),
      updates.map (·.value), ⟨log.records ++ site.clampRecords node updates⟩) := by
  induction steps generalizing node stats log with
  | nil => simp [applyFrom, UpdateStats.tally, clampRecords]
  | cons step _ ih =>
    simp [applyFrom, step, ih, UpdateStats.tally, records_warn, clampRecords_cons]

/-- The first node without a step ends the update. It and the nodes after it keep their values. -/
theorem applyFrom_of_stop {rest : List (α × α)} {old raw : α} (steps : site.Steps nodes updates)
    (stop : site.policy.step? site.settings old raw = none) :
    site.applyFrom node stats log (nodes ++ (old, raw) :: rest) =
      (.error (.nonPositive site.scope site.variableName (node + nodes.length) (Precision.widen old)),
        updates.map (·.value) ++ old :: rest.map (·.1),
        ⟨log.records ++ site.clampRecords node updates
          ++ [site.stopRecord (node + nodes.length) old]⟩) := by
  induction steps generalizing node stats log with
  | nil => simp [applyFrom, stop, clampRecords, Log.write, stopRecord]
  | cons step _ ih =>
    simp only [List.cons_append, applyFrom, step, ih, List.length_cons, Nat.add_assoc, Nat.add_comm 1]
    simp [records_warn, clampRecords_cons]

theorem Steps.exists_step (steps : site.Steps nodes updates) :
    ∀ n ∈ nodes, ∃ update, site.policy.step? site.settings n.1 n.2 = some update := by
  induction steps with
  | nil => simp
  | cons step _ ih => exact List.forall_mem_cons.mpr ⟨⟨_, step⟩, ih⟩

/-- Either all nodes have a step, or there is a first one without. -/
theorem steps_or_stop (site : UpdateSite β) (nodes : List (α × α)) :
    (∃ updates, site.Steps nodes updates) ∨
      ∃ before old raw rest updates, nodes = before ++ (old, raw) :: rest ∧
        site.Steps before updates ∧ site.policy.step? site.settings old raw = none := by
  induction nodes with
  | nil => exact .inl ⟨[], .nil⟩
  | cons n rest ih =>
    cases step : site.policy.step? site.settings n.1 n.2 with
    | none => exact .inr ⟨[], n.1, n.2, rest, [], rfl, .nil, step⟩
    | some update =>
      obtain ⟨updates, steps⟩ | ⟨before, old, raw, rest, updates, rfl, steps, stop⟩ := ih
      · exact .inl ⟨update :: updates, .cons step steps⟩
      · exact .inr ⟨n :: before, old, raw, rest, update :: updates, rfl, .cons step steps, stop⟩

theorem exists_steps (all : ∀ n ∈ nodes, site.policy.step? site.settings n.1 n.2 ≠ none) :
    ∃ updates, site.Steps nodes updates := by
  refine (site.steps_or_stop nodes).resolve_right ?_
  rintro ⟨before, old, raw, rest, -, rfl, -, stop⟩
  exact all (old, raw) (by simp) stop

theorem Steps.clampRecords_eq (steps : site.Steps nodes updates) (clamps : α × α → Bool)
    (clamped : ∀ n ∈ nodes, ∀ update, site.policy.step? site.settings n.1 n.2 = some update →
      update.clamped = clamps n) :
    site.clampRecords node updates =
      ((nodes.zipIdx node).filter (clamps ·.1)).map (site.clampRecord ·.2) := by
  induction steps generalizing node with
  | nil => rfl
  | @cons n update nodes updates step _ ih =>
    rw [clampRecords_cons, ih fun n member => clamped n (List.mem_cons_of_mem _ member),
      clamped n List.mem_cons_self update step, List.zipIdx_cons, List.filter_cons]
    cases clamps n <;> rfl

variable {values raw : Array α}

theorem Steps.length (steps : site.Steps (values.toList.zip raw.toList) updates)
    (sizes : values.size = raw.size) : updates.length = values.size := by
  have length := List.Forall₂.length_eq steps
  rw [List.length_zip, Array.length_toList, Array.length_toList, ← sizes, Nat.min_self] at length
  exact length.symm

theorem Steps.getElem (steps : site.Steps (values.toList.zip raw.toList) updates) {i : Nat}
    (h : i < values.size) (h' : i < raw.size) (h'' : i < updates.length) :
    site.policy.step? site.settings values[i] raw[i] = some updates[i] := by
  simpa using (List.forall₂_iff_get.mp steps).2 i (by simp; omega) h''

theorem apply_of_steps (sizes : values.size = raw.size)
    (steps : site.Steps (values.toList.zip raw.toList) updates) :
    site.apply values raw log = (.ok (UpdateStats.tally {} site.settings 0 updates),
      (updates.map (·.value)).toArray, ⟨log.records ++ site.clampRecords 0 updates⟩) := by
  simp [apply, sizes, applyFrom_of_steps steps]

/-- An update succeeds exactly if all nodes have a step. -/
theorem apply_eq_ok_iff {new : Array α} {log' : Log} :
    site.apply values raw log = (.ok stats, new, log') ↔ values.size = raw.size ∧
      ∃ updates, site.Steps (values.toList.zip raw.toList) updates ∧
        stats = UpdateStats.tally {} site.settings 0 updates ∧
        new = (updates.map (·.value)).toArray ∧
        log' = ⟨log.records ++ site.clampRecords 0 updates⟩ := by
  constructor
  · intro applied
    by_cases sizes : values.size = raw.size
    · obtain ⟨updates, steps⟩ | ⟨before, old, raw', rest, updates, split, steps, stop⟩ :=
        site.steps_or_stop (values.toList.zip raw.toList)
      · rw [apply_of_steps sizes steps] at applied
        cases applied
        exact ⟨sizes, updates, steps, rfl, rfl, rfl⟩
      · rw [apply, if_neg (not_not.mpr sizes), split, applyFrom_of_stop steps stop] at applied
        cases applied
    · rw [apply, if_pos sizes] at applied
      cases applied
  · rintro ⟨sizes, updates, steps, rfl, rfl, rfl⟩
    exact apply_of_steps sizes steps

theorem exists_ok_iff : (∃ stats, (site.apply values raw log).1 = .ok stats) ↔
    values.size = raw.size ∧ ∃ updates, site.Steps (values.toList.zip raw.toList) updates := by
  constructor
  · intro ⟨stats, ok⟩
    obtain ⟨sizes, updates, steps, -⟩ := apply_eq_ok_iff.mp (Prod.ext ok rfl)
    exact ⟨sizes, updates, steps⟩
  · intro ⟨sizes, updates, steps⟩
    exact ⟨_, congrArg Prod.fst (apply_of_steps sizes steps)⟩

/-- An update whose nodes before `i` have steps, and `i` none, ends there. -/
theorem apply_of_stop (log : Log) (sizes : values.size = raw.size) {i : Nat} (h : i < values.size)
    (steps : site.Steps ((values.toList.zip raw.toList).take i) updates)
    (stop : site.policy.step? site.settings values[i] raw[i] = none) :
    (site.apply values raw log).1 =
      .error (.nonPositive site.scope site.variableName i (Precision.widen values[i])) ∧
    (site.apply values raw log).2.2 = ⟨log.records ++ site.clampRecords 0 updates
      ++ [site.stopRecord i values[i]]⟩ := by
  have bound : i < (values.toList.zip raw.toList).length := by simp; omega
  have split : values.toList.zip raw.toList = (values.toList.zip raw.toList).take i
      ++ (values[i], raw[i]) :: (values.toList.zip raw.toList).drop (i + 1) := by
    conv_lhs => rw [← List.take_append_drop i (values.toList.zip raw.toList)]
    rw [List.drop_eq_getElem_cons bound]
    simp
  have length : ((values.toList.zip raw.toList).take i).length = i :=
    List.length_take_of_le (Nat.le_of_lt bound)
  rw [apply, if_neg (not_not.mpr sizes), split, applyFrom_of_stop steps stop, length, Nat.zero_add]
  exact ⟨rfl, rfl⟩

end UpdateSite

end FiniteVolume
