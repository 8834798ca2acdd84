import FiniteVolume.Proofs.Device.Cycle

/-!
When the rows of a device are numbered through.

Calls that build number the rows, and so do claims. A slot that is added or taken away through a region
moves rows without that; a later call has to make up for it (`Device.Current.after`).
-/
namespace FiniteVolume

variable {β α : Type}

/-! ## Slots -/

namespace Region

variable {r : Region β α}

/-- The rows of an equation lie among those of its region. -/
theorem firstRow?_add_le {equation : String} {start : Nat} (found : r.firstRow? equation = some start) :
    r.base ≤ start ∧ start + r.nodeCount ≤ r.base + r.rowCount := by
  obtain ⟨i, index, rfl⟩ := Option.map_eq_some_iff.mp found
  have slot := Nat.mul_le_mul_right r.nodeCount (equationIndex?_lt index).1
  rw [Nat.succ_mul] at slot
  rw [rowCount]
  omega

variable [Scalar α] [BaseScalar β] [Precision β α]

/-- The call adds a slot or takes one away, which moves the slots and regions behind it. -/
def Change.MovesSlots (r : Region β α) : Change β α → Prop
  | addEquation equation _ => ¬r.slots.contains equation
  | removeEquation equation => r.slots.contains equation
  | _ => False

theorem Change.rowCount_apply {change : Change β α} (still : ¬change.MovesSlots r) :
    (change.apply r).rowCount = r.rowCount := by
  by_cases moves : change.MovesRows r
  · cases change with
    | addContact contact => rfl
    | addEquation equation variableName =>
      have present : r.slots.contains equation := not_not.mp still
      have size : (r.slots.insert equation variableName).size = r.slots.size := by
        rw [← Table.length_keys, Table.keys_insert, if_pos (Table.contains_iff.mp present),
          Table.length_keys]
      rw [apply, Region.addEquation]
      split <;> exact congrArg (· * r.nodeCount) size
    | removeEquation equation => exact absurd moves still
    | _ => exact moves.elim
  · exact eq_of_bare_eq (f := Region.rowCount) (fun _ => rfl) (bare_apply moves)

end Region

namespace Device

variable [BaseScalar β] {d d' : Device β α}

/-! ## Current numbers -/

theorem Current.renumber_eq (current : d.Current) : d.renumber = d.idle := by
  rw [renumber, current.numbered.renumber_eq, ← current.circuit]

theorem Current.setRegion (current : d.Current) {name : String} {r r' : Region β α}
    (found : d.parts.regions.get? name = some r) (base : r'.base = r.base)
    (rows : r'.rowCount = r.rowCount) : { d with parts := d.parts.setRegion name r' }.Current := by
  have blocks : (d.parts.setRegion name r').blocks = d.parts.blocks := by
    rw [Parts.blocks, Parts.setRegion, Table.modify, List.map_map]
    refine List.map_congr_left fun x member => ?_
    rw [Function.comp_apply]
    split
    next here =>
      have same : d.parts.regions.get? name = some x.2 := Table.get?_eq_some_iff.mpr (here ▸ member)
      rw [rows, Option.some.inj (found.symm.trans same)]
    · rfl
  constructor
  · intro name' r₁ found₁
    rw [Parts.rowsBefore_eq, blocks, ← Parts.rowsBefore_eq]
    rw [Parts.setRegion, Table.get?_modify] at found₁
    split at found₁
    next here =>
      rw [here, found] at found₁
      cases found₁
      rw [base, here]
      exact current.numbered name r found
    · exact current.numbered name' r₁ found₁
  · rw [Parts.rowCount_eq, blocks, ← Parts.rowCount_eq]
    exact current.circuit

theorem current_create {name : String} {settings : Settings β} (made : create name settings = .ok d) :
    d.Current := by
  unfold create at made
  split at made
  · cases made
    refine ⟨fun _ _ found => ?_, rfl⟩
    cases found
  · cases made

theorem Current.orElse (current : d.Current) {result : Except (DeviceError β) (Device β α)}
    (added : ∀ d', result = .ok d' → d'.Current) : (d.orElse result).Current := by
  cases result with
  | ok d' => exact added d' rfl
  | error e => exact current

theorem current_addRegion [Precision β α] {name : String} {mesh : Mesh β}
    (added : d.addRegion name mesh = .ok d') : d'.Current := by
  unfold addRegion at added
  split at added
  · cases added
  · cases added
    exact current_renumber _

theorem Current.addContact (current : d.Current) {name region : String} {nodes : List Nat}
    (added : d.addContact name region nodes = .ok d') : d'.Current := by
  unfold Device.addContact at added
  split at added
  · cases added
  · obtain ⟨r, found, added⟩ := getRegion_bind_eq_ok added
    split at added
    · cases added
    next contact _ =>
      cases added
      have same := current.setRegion found (show (r.addContact contact).base = r.base from rfl) rfl
      exact ⟨same.numbered, same.circuit⟩

theorem Current.addInterface (current : d.Current) {name region0 region1 : String}
    {pairs : List (Nat × Nat)} (added : d.addInterface name region0 region1 pairs = .ok d') :
    d'.Current := by
  unfold Device.addInterface at added
  obtain ⟨r0, -, added⟩ := getRegion_bind_eq_ok added
  obtain ⟨r1, -, added⟩ := getRegion_bind_eq_ok added
  split at added
  · cases added
  · split at added
    · cases added
    · cases added
      exact ⟨current.numbered, current.circuit⟩

theorem current_addEquation [Scalar α] {region : String} {e : BulkEquation β}
    (added : d.addEquation region e = .ok d') : d'.Current := by
  unfold addEquation at added
  obtain ⟨r, -, added⟩ := getRegion_bind_eq_ok added
  split at added
  · cases added
  · cases added
    exact current_renumber _

theorem Current.addContactEquation (current : d.Current) {e : ContactEquation β}
    (added : d.addContactEquation e = .ok d') : d'.Current := by
  unfold Device.addContactEquation at added
  split at added
  · cases added
  · split at added
    · cases added
    · cases added
      exact ⟨current.numbered, current.circuit⟩

theorem Current.addInterfaceEquation (current : d.Current) {name : String} {e : InterfaceEquation}
    (added : d.addInterfaceEquation name e = .ok d') : d'.Current := by
  unfold Device.addInterfaceEquation at added
  split at added
  · cases added
  · split at added
    · cases added
    · cases added
      exact ⟨current.numbered, current.circuit⟩

theorem Current.checkLayout (current : d.Current) : d.checkLayout.Current := by
  unfold Device.checkLayout
  split
  · split
    · exact current
    · exact current_renumber d
  · exact current

variable [Scalar α]

theorem current_claimRows (d : Device β α) : d.claimRows.2.Current := by
  have prepared : d.prepared.Current := ⟨d.current_renumber.numbered, d.current_renumber.circuit⟩
  rcases ran : d.claimPass with ⟨e | ⟨⟩, s⟩
  · obtain ⟨log, failed⟩ := claimRows_of_error ran
    rw [failed]
    exact ⟨prepared.numbered, prepared.circuit⟩
  · rw [claimRows_of_ok ran]
    exact ⟨prepared.numbered, prepared.circuit⟩

section

variable {select : Selector} (time : TimeMode) (out : Records α)

/-- A numeric pass leaves the numbers as they are once it has looked at the layout. -/
theorem current_assemble_of_checkLayout (numeric : select ≠ .rows) (current : d.checkLayout.Current) :
    (d.assemble select time out).2.1.Current := by
  rw [Device.assemble, if_neg numeric]
  dsimp only
  split
  · exact current.of_bare_eq (alike_numericPass numeric _).bare
  · exact ⟨current.numbered, current.circuit⟩

theorem Current.assemble (current : d.Current) : (d.assemble select time out).2.1.Current := by
  by_cases numeric : select = .rows
  · rw [Device.assemble, if_pos numeric]
    exact d.current_claimRows
  · exact current_assemble_of_checkLayout time out numeric current.checkLayout

theorem current_assembleCycle (d : Device β α) (select : Selector) :
    (d.assembleCycle select time out).2.1.Current := by
  have claimed := d.current_claimRows
  unfold Device.assembleCycle
  split
  next ran =>
    rw [ran] at claimed
    exact claimed
  next ran =>
    rw [ran] at claimed
    exact claimed.assemble time out

end

/-! ## Calls -/

namespace Change

variable [Precision β α]

def Numbers (d : Device β α) : Change β α → Prop
  | addRegion name mesh => ∃ d', d.addRegion name mesh = .ok d'
  | addEquation regionName e => ∃ d', d.addEquation regionName e = .ok d'
  | addCircuitNode .. | claimRows | assembleCycle .. => True
  | assemble select _ _ => select = .rows ∨ d.stage ≠ .idle ∧ ¬d.Ready
  | _ => False

/-- The call adds a slot to a region or takes one away, behind the back of the device. -/
def MovesSlots (d : Device β α) : Change β α → Prop
  | region name change => ∃ r, d.parts.regions.get? name = some r ∧ change.MovesSlots r
  | _ => False

/-- After a call that numbers the rows they are numbered through. -/
theorem Numbers.current {change : Change β α} (numbers : change.Numbers d) :
    (change.apply d).Current := by
  cases change with
  | addRegion name mesh =>
    obtain ⟨d', added⟩ := numbers
    rw [apply, added]
    exact current_addRegion added
  | addEquation region e =>
    obtain ⟨d', added⟩ := numbers
    rw [apply, added]
    exact current_addEquation added
  | addCircuitNode name value => exact current_renumber _
  | claimRows => exact d.current_claimRows
  | assembleCycle select time out => exact d.current_assembleCycle time out select
  | assemble select time out =>
    by_cases numeric : select = .rows
    · rw [apply, Device.assemble, if_pos numeric]
      exact d.current_claimRows
    · obtain ⟨started, unready⟩ := numbers.resolve_left numeric
      refine current_assemble_of_checkLayout time out numeric ?_
      cases claimed : d.stage with
      | idle => exact absurd claimed started
      | claimed layout =>
        have changed : layout ≠ d.layout := fun same => unready (claimed.trans (congrArg _ same))
        rw [checkLayout, claimed]
        dsimp only
        rw [if_neg changed]
        exact d.current_renumber
  | _ => exact numbers.elim

theorem Numbers.not_movesSlots {change : Change β α} (numbers : change.Numbers d) :
    ¬change.MovesSlots d := by
  cases change with
  | region name change => exact numbers.elim
  | _ => exact id

/-- Every call that moves no slots keeps the rows numbered through. -/
theorem current_apply {change : Change β α} (current : d.Current) (still : ¬change.MovesSlots d) :
    (change.apply d).Current := by
  cases change with
  | addRegion name mesh => exact current.orElse fun _ => current_addRegion
  | addContact name region nodes => exact current.orElse fun _ => current.addContact
  | addInterface name region0 region1 pairs => exact current.orElse fun _ => current.addInterface
  | addEquation region e => exact current.orElse fun _ => current_addEquation
  | addContactEquation e => exact current.orElse fun _ => current.addContactEquation
  | addInterfaceEquation name e => exact current.orElse fun _ => current.addInterfaceEquation
  | addCircuitNode name value => exact current_renumber _
  | setCircuitValue name value => exact current.of_bare_eq (d.alike_setCircuitValue name value).bare
  | region name change =>
    rw [apply, changeRegion]
    split
    next r found =>
      have same : ¬change.MovesSlots r := fun moves => still ⟨r, found, moves⟩
      exact current.setRegion found (change.follows r).base (Region.Change.rowCount_apply same)
    · exact current
  | declare region kind name calculator =>
    exact current.of_bare_eq (alike_declare d region kind name calculator).bare
  | declareOnContact region contact name calculator =>
    exact current.of_bare_eq (alike_declareOnContact d region contact name calculator).bare
  | interface name change =>
    exact current.of_bare_eq (alike_changeInterface change.geometry_apply change.sized_apply d name).bare
  | takeLog => exact ⟨current.numbered, current.circuit⟩
  | claimRows => exact d.current_claimRows
  | assemble select time out => exact current.assemble time out
  | assembleCycle select time out => exact d.current_assembleCycle time out select
  | update solution => exact current.of_bare_eq (d.alike_update solution).bare
  | integrateContacts => exact current.of_bare_eq d.alike_integrateContacts.bare

end Change

/-! ## Histories -/

variable [Precision β α]

/-- Every call of the history that moves slots is followed by one that numbers the rows. -/
def NumberedSince (d : Device β α) (changes : List (Change β α)) : Prop :=
  ∀ before change later, changes = before ++ change :: later → change.MovesSlots (d.after before) →
    ∃ past call rest, later = past ++ call :: rest ∧ call.Numbers (d.after (before ++ change :: past))

theorem numberedSince_concat {changes : List (Change β α)} {change : Change β α} :
    d.NumberedSince (changes ++ [change]) ↔ change.Numbers (d.after changes) ∨
      d.NumberedSince changes ∧ ¬change.MovesSlots (d.after changes) := by
  constructor
  · intro numbered
    by_cases numbers : change.Numbers (d.after changes)
    · exact .inl numbers
    refine .inr ⟨fun before moving later split moves => ?_, fun moves => ?_⟩
    · obtain ⟨past, call, rest, here, calls⟩ :=
        numbered before moving (later ++ [change]) (by simp [split]) moves
      rcases List.eq_nil_or_concat' rest with rfl | ⟨rest, last, rfl⟩
      · obtain ⟨rfl, rfl⟩ := List.append_inj' here rfl |>.imp_right List.singleton_inj.mp
        exact absurd (split ▸ calls) numbers
      · have shorter : later ++ [change] = (past ++ call :: rest) ++ [last] := by simpa using here
        exact ⟨past, call, rest, (List.append_inj' shorter rfl).1, calls⟩
    · obtain ⟨past, call, rest, here, -⟩ := numbered changes change [] rfl moves
      simp at here
  · intro holds before moving later split moves
    rcases List.eq_nil_or_concat' later with rfl | ⟨later, last, rfl⟩
    · obtain ⟨rfl, rfl⟩ := List.append_inj' split rfl |>.imp_right List.singleton_inj.mp
      rcases holds with numbers | ⟨-, still⟩
      · exact absurd moves numbers.not_movesSlots
      · exact absurd moves still
    · have longer : changes ++ [change] = (before ++ moving :: later) ++ [last] := by simpa using split
      obtain ⟨rfl, rfl⟩ := List.append_inj' longer rfl |>.imp_right List.singleton_inj.mp
      rcases holds with numbers | ⟨numbered, -⟩
      · exact ⟨later, change, [], rfl, numbers⟩
      · obtain ⟨past, call, rest, rfl, calls⟩ := numbered before moving later rfl moves
        exact ⟨past, call, rest ++ [change], by simp, calls⟩

/-- After such a history the rows are numbered through. -/
theorem Current.after (current : d.Current) {changes : List (Change β α)}
    (numbered : d.NumberedSince changes) : (d.after changes).Current := by
  induction changes using List.reverseRecOn with
  | nil => exact current
  | append_singleton changes change ih =>
    rw [after_concat]
    rcases numberedSince_concat.mp numbered with numbers | ⟨earlier, still⟩
    · exact numbers.current
    · exact Change.current_apply (ih earlier) still

end Device

end FiniteVolume
