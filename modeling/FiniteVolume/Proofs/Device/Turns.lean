import FiniteVolume.Proofs.Device.Parts
import FiniteVolume.Proofs.Device.Values
import FiniteVolume.Proofs.Model.Written

/-!
The turns of an update.

Bulk equations take their turns in the order of registration (`Device.Turns`). In its turn an equation reads
its variable in the region as the turns before it left it, and writes what its policy makes of the values;
an equation without a slot lets its turn pass. However an update ends, all that it changed is what the turns
before did (`Device.updateFrom_ending`, `Device.Turns.writesOnly`, `Device.Turns.taken`).
-/
namespace FiniteVolume

variable {β α : Type}

/-! ## Parts with other values -/

namespace Parts

variable {p p' p'' : Parts β α} {name : String} {r r' : Region β α}

/-- The second parts are the first after writes to models of the given names, and reads. -/
structure WritesOnly (written : String → Domain → String → Prop) (p p' : Parts β α) : Prop where
  junctions : p'.junctions = p.junctions
  regions : ∀ name r, p.regions.get? name = some r →
    ∃ r', p'.regions.get? name = some r' ∧ Region.WritesOnly (written name) r r'

namespace WritesOnly

variable {written written' : String → Domain → String → Prop}

theorem refl (p : Parts β α) : WritesOnly written p p := ⟨rfl, fun _ r found => ⟨r, found, .refl r⟩⟩

theorem trans (first : WritesOnly written p p') (second : WritesOnly written p' p'') :
    WritesOnly written p p'' where
  junctions := second.junctions.trans first.junctions
  regions name r found := by
    obtain ⟨r', found', writes⟩ := first.regions name r found
    obtain ⟨r'', found'', writes'⟩ := second.regions name r' found'
    exact ⟨r'', found'', writes.trans writes'⟩

theorem mono (writes : WritesOnly written p p') (more : ∀ name d m, written name d m → written' name d m) :
    WritesOnly written' p p' where
  junctions := writes.junctions
  regions name r found := by
    obtain ⟨r', found', here⟩ := writes.regions name r found
    exact ⟨r', found', here.mono (more name)⟩

theorem setRegion (found : p.regions.get? name = some r)
    (here : Region.WritesOnly (written name) r r') : WritesOnly written p (p.setRegion name r') where
  junctions := rfl
  regions other r₀ found₀ := by
    rw [Parts.setRegion, Table.get?_modify]
    split
    next same =>
      subst same
      rw [found] at found₀
      cases found₀
      exact ⟨r', by rw [found]; rfl, here⟩
    · exact ⟨r₀, found₀, .refl r₀⟩

end WritesOnly

variable [BaseScalar β] {x : String × BulkEquation β} {start : Nat}

/-- The region of a bulk equation and the first of its rows, if it has a slot. -/
def slot? (p : Parts β α) (x : String × BulkEquation β) : Option (Region β α × Nat) := do
  let r ← p.regions.get? x.1
  return (r, ← r.firstRow? x.2.name)

theorem slot?_eq_some_iff : p.slot? x = some (r, start) ↔
    p.regions.get? x.1 = some r ∧ r.firstRow? x.2.name = some start := by
  simp [slot?, Option.bind_eq_some_iff]

theorem slot?_of_bare_eq (same : p'.bare = p.bare) :
    (p'.slot? x).map (fun found => (found.1.bare, found.2)) =
      (p.slot? x).map fun found => (found.1.bare, found.2) := by
  have look (q : Parts β α) : (q.slot? x).map (fun found => (found.1.bare, found.2)) =
      (q.bare.regions.get? x.1).bind fun r => (r.firstRow? x.2.name).map fun start => (r, start) := by
    rw [get?_regions_bare, slot?]
    cases found : q.regions.get? x.1 with
    | none => rfl
    | some r =>
      change Option.map _ ((r.firstRow? x.2.name).bind fun start => some (r, start)) =
        (r.firstRow? x.2.name).map fun start => (r.bare, start)
      cases r.firstRow? x.2.name <;> rfl
  rw [look, look, same]

theorem slot?_eq_some_of_bare_eq (same : p'.bare = p.bare) (slot : p.slot? x = some (r, start)) :
    ∃ r', p'.slot? x = some (r', start) ∧ r'.bare = r.bare := by
  have slots := slot?_of_bare_eq (x := x) same
  rw [slot] at slots
  obtain ⟨⟨r', start'⟩, slot', here⟩ := Option.map_eq_some_iff.mp slots
  obtain ⟨bare, rfl⟩ : r'.bare = r.bare ∧ start' = start := by simpa using here
  exact ⟨r', slot', bare⟩

theorem isSome_slot?_of_bare_eq (same : p'.bare = p.bare) : (p'.slot? x).isSome = (p.slot? x).isSome := by
  have slots := congrArg Option.isSome (slot?_of_bare_eq (x := x) same)
  simpa using slots

end Parts

variable [BaseScalar β] [Scalar α] [Precision β α]

/-! ## One equation -/

namespace BulkEquation

variable {e e' : BulkEquation β} {settings : UpdateSettings β} {raw : Array α} {r r' : Region β α}
  {log log' : Log}

def updateSite (e : BulkEquation β) (settings : UpdateSettings β) (r : Region β α) : UpdateSite β :=
  ⟨e.policy, settings, e.variableName, e.scope r⟩

/-- An update that succeeds reads the variable and writes what the policy makes of its values. -/
theorem update_eq_ok_iff : e.update settings raw r log = (.ok e', r', log') ↔
    ∃ old stats new, (r.read .node e.variableName).1 = .ok old ∧
      (e.updateSite settings r).apply old.toArray raw log = (.ok stats, new, log') ∧
      (r.read .node e.variableName).2.setValues .node e.variableName new = .ok r' ∧
      e' = { e with last := stats } := by
  unfold update updateSite
  rcases read : r.read .node e.variableName with ⟨cause | old, r₁⟩
  · simp
  · dsimp only
    rcases applied : UpdateSite.apply ⟨e.policy, settings, e.variableName, e.scope r⟩ old.toArray raw log
      with ⟨fault | stats, new, log₁⟩
    · simp [applied]
    · cases wrote : r₁.setValues .node e.variableName new with
      | error cause => simp [wrote, applied]
      | ok r₂ => simp [wrote, applied, eq_comm, and_assoc, and_comm]

/-- An update that is refused has only read the variable. -/
theorem region_of_update_error {fault : UpdateError β}
    (ran : e.update settings raw r log = (.error fault, r', log')) :
    r' = (r.read .node e.variableName).2 := by
  unfold update at ran
  rcases read : r.read .node e.variableName with ⟨cause | old, r₁⟩
  · rw [read] at ran
    cases ran
    rfl
  · rw [read] at ran
    dsimp only at ran
    split at ran
    · cases ran
      rfl
    · split at ran <;> cases ran
      rfl

end BulkEquation

/-! ## All equations -/

/-- What an update carries from one turn to the next. -/
structure UpdateState (β α : Type) [BaseScalar β] where
  stats : UpdateStats β
  parts : Parts β α
  log : Log

namespace Device

variable (settings : UpdateSettings β) (solution : Array α)

/-- The raw steps on the rows of a region from the given one on. -/
def rawOf (solution : Array α) (r : Region β α) (start : Nat) : Array α :=
  solution.extract start (start + r.nodeCount)

omit [BaseScalar β] [Scalar α] [Precision β α] in
theorem rawOf_of_bare_eq {r r' : Region β α} (same : r'.bare = r.bare) (start : Nat) :
    rawOf solution r' start = rawOf solution r start := by
  have count : r'.bare.nodeCount = r.bare.nodeCount := congrArg Region.nodeCount same
  rw [rawOf, rawOf, show r'.nodeCount = r.nodeCount from count]

inductive Turn (s : UpdateState β α) (x : String × BulkEquation β) :
    UpdateState β α → BulkEquation β → Prop
  | pass (slot : s.parts.slot? x = none) : Turn s x s x.2
  | update {r r' : Region β α} {start : Nat} {e' : BulkEquation β} {log' : Log}
    (slot : s.parts.slot? x = some (r, start)) (inside : start + r.nodeCount ≤ solution.size)
    (ran : x.2.update settings (rawOf solution r start) r s.log = (.ok e', r', log')) :
    Turn s x ⟨s.stats.max e'.last, s.parts.setRegion x.1 r', log'⟩ e'

inductive Turns : UpdateState β α → List (String × BulkEquation β) →
    UpdateState β α → List (String × BulkEquation β) → Prop
  | nil {s : UpdateState β α} : Turns s [] s []
  | cons {s s' s'' : UpdateState β α} {x : String × BulkEquation β} {e' : BulkEquation β}
    {rest rest' : List (String × BulkEquation β)} (turn : Turn settings solution s x s' e')
    (turns : Turns s' rest s'' rest') : Turns s (x :: rest) s'' ((x.1, e') :: rest')

/-- A turn in which the update of the equation is refused. The region has been read. -/
def Refused (s : UpdateState β α) (x : String × BulkEquation β) (fault : UpdateError β)
    (r' : Region β α) (log' : Log) : Prop :=
  ∃ r start, s.parts.slot? x = some (r, start) ∧ start + r.nodeCount ≤ solution.size ∧
    x.2.update settings (rawOf solution r start) r s.log = (.error fault, r', log')

/-- How an update of bulk equations ends: after all turns, in a turn that is refused, or before one that has no
rows in the solution. -/
inductive Ending (s : UpdateState β α) (items : List (String × BulkEquation β)) :
    Except (DeviceError β) (UpdateStats β) × List (String × BulkEquation β) × Parts β α × Log → Prop
  | all {s' : UpdateState β α} {items' : List (String × BulkEquation β)}
    (turns : Turns settings solution s items s' items') :
    Ending s items (.ok s'.stats, items', s'.parts, s'.log)
  | refused {s' : UpdateState β α} {before after updated : List (String × BulkEquation β)}
    {x : String × BulkEquation β} {fault : UpdateError β} {r' : Region β α} {log' : Log}
    (split : items = before ++ x :: after) (turns : Turns settings solution s before s' updated)
    (stop : Refused settings solution s' x fault r' log') :
    Ending s items (.error (.update fault), updated ++ x :: after, s'.parts.setRegion x.1 r', log')
  | outside {s' : UpdateState β α} {before after updated : List (String × BulkEquation β)}
    {x : String × BulkEquation β} {r : Region β α} {start : Nat}
    (split : items = before ++ x :: after) (turns : Turns settings solution s before s' updated)
    (slot : s'.parts.slot? x = some (r, start)) (outside : solution.size < start + r.nodeCount) :
    Ending s items (.error (.rowsOutOfRange x.2.name (start + r.nodeCount - 1) solution.size),
      updated ++ x :: after, s'.parts, s'.log)

variable {settings : UpdateSettings β} {solution : Array α} {s s' s'' : UpdateState β α}
  {items items' rest : List (String × BulkEquation β)} {x : String × BulkEquation β} {e' : BulkEquation β}

theorem Ending.cons {ran : Except (DeviceError β) (UpdateStats β) × List (String × BulkEquation β)
      × Parts β α × Log} (turn : Turn settings solution s x s' e')
    (ending : Ending settings solution s' rest ran) :
    Ending settings solution s (x :: rest) (ran.1, (x.1, e') :: ran.2.1, ran.2.2) := by
  cases ending with
  | all turns => exact .all (.cons turn turns)
  | refused split turns stop => exact .refused (by rw [split]; rfl) (.cons turn turns) stop
  | outside split turns slot outside => exact .outside (by rw [split]; rfl) (.cons turn turns) slot outside

theorem updateFrom_ending (settings : UpdateSettings β) (solution : Array α) (s : UpdateState β α)
    (items : List (String × BulkEquation β)) :
    Ending settings solution s items (updateFrom settings solution s.stats items s.parts s.log) := by
  induction items generalizing s with
  | nil => exact .all .nil
  | cons x rest ih =>
    obtain ⟨region, e⟩ := x
    unfold updateFrom
    split
    next slot => exact .cons (.pass slot) (ih s)
    next r start slot =>
      dsimp only
      split
      next outside => exact .outside rfl .nil slot outside
      next inside =>
        split
        next fault r' log' ran => exact .refused rfl .nil ⟨r, start, slot, Nat.not_lt.mp inside, ran⟩
        next e' r' log' ran =>
          exact .cons (.update slot (Nat.not_lt.mp inside) ran)
            (ih ⟨s.stats.max e'.last, s.parts.setRegion region r', log'⟩)

/-! ## What turns leave -/

def Variables (p : Parts β α) (items : List (String × BulkEquation β)) (region : String) (d : Domain)
    (name : String) : Prop :=
  d = .node ∧ ∃ x ∈ items, (p.slot? x).isSome ∧ x.1 = region ∧ x.2.variableName = name

theorem Turn.writesOnly (turn : Turn settings solution s x s' e') :
    Parts.WritesOnly (Variables s.parts [x]) s.parts s'.parts := by
  cases turn with
  | pass slot => exact .refl _
  | @update r r' start e' log' slot inside ran =>
    obtain ⟨old, stats, new, read, applied, wrote, -⟩ := BulkEquation.update_eq_ok_iff.mp ran
    refine .setRegion (Parts.slot?_eq_some_iff.mp slot).1 ?_
    refine .trans (.of_uncached_eq (Region.progress_read r .node x.2.variableName).declared) ?_
    refine (Region.WritesOnly.of_setData wrote).mono fun d name same => ?_
    cases same
    exact ⟨rfl, x, List.mem_singleton_self x, by rw [slot]; rfl, rfl, rfl⟩

theorem Turn.bare_eq (turn : Turn settings solution s x s' e') : s'.parts.bare = s.parts.bare := by
  cases turn with
  | pass slot => rfl
  | @update r r' start e' log' slot inside ran =>
    have updated := x.2.bare_update settings (rawOf solution r start) r s.log
    rw [ran] at updated
    refine Parts.bare_setRegion ?_
    rw [(Parts.slot?_eq_some_iff.mp slot).1, Option.map_some, updated]

namespace Turns

variable {s'' : UpdateState β α} {before : List (String × BulkEquation β)}

theorem bare_eq (turns : Turns settings solution s items s' items') : s'.parts.bare = s.parts.bare := by
  induction turns with
  | nil => rfl
  | cons turn _ ih => exact ih.trans turn.bare_eq

theorem length_eq (turns : Turns settings solution s items s' items') : items'.length = items.length := by
  induction turns with
  | nil => rfl
  | cons _ _ ih => simp [ih]

/-- The turns of some equations, and then those of the others. -/
theorem of_append (turns : Turns settings solution s (before ++ rest) s'' items') :
    ∃ s' updated rest', Turns settings solution s before s' updated ∧
      Turns settings solution s' rest s'' rest' ∧ items' = updated ++ rest' := by
  induction before generalizing s items' with
  | nil => exact ⟨s, [], items', .nil, turns, rfl⟩
  | cons x before ih =>
    cases turns with
    | cons turn turns =>
      obtain ⟨s', updated, rest', first, second, rfl⟩ := ih turns
      exact ⟨s', _ :: updated, rest', .cons turn first, second, rfl⟩

theorem writesOnly (turns : Turns settings solution s items s' items') :
    Parts.WritesOnly (Variables s.parts items) s.parts s'.parts := by
  induction turns with
  | nil => exact .refl _
  | cons turn turns ih =>
    refine (turn.writesOnly.mono ?_).trans (ih.mono ?_)
    · rintro region d name ⟨node, y, member, here⟩
      rw [List.mem_singleton.mp member] at here
      exact ⟨node, _, List.mem_cons_self, here⟩
    · rintro region d name ⟨node, y, member, slot, here⟩
      rw [Parts.isSome_slot?_of_bare_eq turn.bare_eq] at slot
      exact ⟨node, y, List.mem_cons_of_mem _ member, slot, here⟩

/-- The statistics are merged from those of the equations with slots, in order. -/
theorem stats_eq (turns : Turns settings solution s items s' items') : s'.stats =
    ((items'.filter fun x => (s.parts.slot? x).isSome).map (·.2.last)).foldl .max s.stats := by
  induction turns with
  | nil => rfl
  | @cons s s' s'' x e' rest rest' turn turns ih =>
    have slots : ∀ y, (s'.parts.slot? y).isSome = (s.parts.slot? y).isSome := fun y =>
      Parts.isSome_slot?_of_bare_eq turn.bare_eq
    simp only [slots] at ih
    cases turn with
    | pass slot => simpa [slot] using ih
    | @update r r' start e' log' slot inside ran =>
      obtain ⟨old, stats, new, -, -, -, rfl⟩ := BulkEquation.update_eq_ok_iff.mp ran
      have slot' : s.parts.slot? (x.1, { x.2 with last := stats }) = some (r, start) := slot
      simpa [slot'] using ih

end Turns

/-! ## What is left of one turn -/

/-- What the turn of an equation after some others leaves in the end. Without a slot, nothing is changed.
With one, the variable holds what the policy made of the values read in the turn, which are those that were
stored at first if there were any, and the statistics are those of this step. -/
structure Taken (settings : UpdateSettings β) (solution : Array α) (s : UpdateState β α)
    (before : List (String × BulkEquation β)) (x : String × BulkEquation β) (e' : BulkEquation β)
    (p' : Parts β α) : Prop where
  passed : s.parts.slot? x = none → e' = x.2
  updated : ∀ r₀ start, s.parts.slot? x = some (r₀, start) →
    ∃ s₁ others r old stats new log r', Turns settings solution s before s₁ others ∧
      s₁.parts.regions.get? x.1 = some r ∧ (r.read .node x.2.variableName).1 = .ok old ∧
      (∀ data, r₀.Stored .node x.2.variableName data → old = data) ∧
      (x.2.updateSite settings r).apply old.toArray (rawOf solution r₀ start) s₁.log =
        (.ok stats, new, log) ∧
      e' = { x.2 with last := stats } ∧ p'.regions.get? x.1 = some r' ∧
      r'.Stored .node x.2.variableName (.vector new)

/-- No two equations of a region solve for the same variable. -/
def DistinctVariables (items : List (String × BulkEquation β)) : Prop :=
  items.Pairwise fun x y => x.1 = y.1 → x.2.variableName ≠ y.2.variableName

theorem Turn.stored {start : Nat} {r : Region β α}
    (turn : Turn settings solution s x s' e') (slot : s.parts.slot? x = some (r, start)) :
    ∃ old stats new log r', (r.read .node x.2.variableName).1 = .ok old ∧
      (x.2.updateSite settings r).apply old.toArray (rawOf solution r start) s.log = (.ok stats, new, log) ∧
      e' = { x.2 with last := stats } ∧ s'.parts.regions.get? x.1 = some r' ∧
      r'.Stored .node x.2.variableName (.vector new) := by
  cases turn with
  | pass none => rw [slot] at none; cases none
  | @update r₁ r' start₁ e' log' slot₁ inside ran =>
    cases slot.symm.trans slot₁
    obtain ⟨old, stats, new, read, applied, wrote, rfl⟩ := BulkEquation.update_eq_ok_iff.mp ran
    refine ⟨old, stats, new, log', r', read, applied, rfl, ?_, Region.stored_of_setData wrote⟩
    rw [Parts.setRegion, Table.get?_modify, if_pos rfl, (Parts.slot?_eq_some_iff.mp slot).1]
    rfl

/-- Every equation has taken its turn, and nothing later has undone it. -/
theorem Turns.taken {before after : List (String × BulkEquation β)} {p' : Parts β α}
    (turns : Turns settings solution s (before ++ x :: after) s' items')
    (distinct : DistinctVariables (before ++ x :: after))
    (later : Parts.WritesOnly (fun _ _ _ => False) s'.parts p') :
    ∃ updated e' rest, items' = updated ++ (x.1, e') :: rest ∧ updated.length = before.length ∧
      Taken settings solution s before x e' p' := by
  obtain ⟨s₁, updated, rest', first, second, rfl⟩ := turns.of_append
  cases second with
  | @cons _ s₂ _ _ e' _ rest turn others =>
  refine ⟨updated, e', rest, rfl, first.length_eq, fun none => ?_, fun r₀ start slot₀ => ?_⟩
  · cases turn with
    | pass slot => rfl
    | update slot inside ran =>
      have slots := Parts.isSome_slot?_of_bare_eq (x := x) first.bare_eq
      rw [slot, none] at slots
      cases slots
  · obtain ⟨r, slot, bare⟩ := Parts.slot?_eq_some_of_bare_eq first.bare_eq slot₀
    obtain ⟨old, stats, new, log, r₂, read, applied, same, found₂, stored⟩ := turn.stored slot
    have found₁ := (Parts.slot?_eq_some_iff.mp slot).1
    have found₀ := (Parts.slot?_eq_some_iff.mp slot₀).1
    obtain ⟨-, follows, precedes⟩ := List.pairwise_append.mp distinct
    rw [rawOf_of_bare_eq solution bare] at applied
    refine ⟨s₁, updated, r, old, stats, new, log, ?_⟩
    -- No equation before this one writes its variable, and none after it.
    have held : ∀ data, r₀.Stored .node x.2.variableName data → old = data := by
      intro data stored₀
      obtain ⟨r', found', writes⟩ := first.writesOnly.regions x.1 r₀ found₀
      cases found₁.symm.trans found'
      have still := writes.stored stored₀ fun ⟨_, y, member, _, region, name⟩ =>
        precedes y member x List.mem_cons_self region name
      rw [Region.read_of_atHand still.atHand] at read
      exact (Except.ok.inj read).symm
    obtain ⟨r₃, found₃, writes⟩ := others.writesOnly.regions x.1 r₂ found₂
    have kept := writes.stored stored fun ⟨_, y, member, _, region, name⟩ =>
      (List.pairwise_cons.mp follows).1 y member region.symm name.symm
    obtain ⟨r', found', reads⟩ := later.regions x.1 r₃ found₃
    exact ⟨r', first, found₁, read, held, applied, same, found', reads.stored kept id⟩

end Device

end FiniteVolume
