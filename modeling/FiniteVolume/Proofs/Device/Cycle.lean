import FiniteVolume.Proofs.Device.History
import FiniteVolume.Proofs.Device.Steps
import FiniteVolume.Proofs.Numeric.Exact
import Mathlib.Data.List.Induction

/-!
When a numeric pass runs.

Rows are ready once they were claimed, until claiming fails or the device is built on
(`Device.Change.ready_apply`, `Device.ready_after`). A pass over a device that is not ready is refused;
in one that is ready, claiming anew would change nothing (`Device.Coherent.claimRows_of_ready`).
-/
namespace FiniteVolume

variable {β α : Type} [BaseScalar β]

omit [BaseScalar β] in
theorem Parts.Numbered.renumber_eq {p : Parts β α} (numbered : p.Numbered) : p.renumber = p := by
  have regions : (p.regions.mapEntries fun name r => { r with base := p.rowsBefore name }) = p.regions := by
    refine Table.ext_entries ((List.map_congr_left fun x member => ?_).trans (List.map_id _))
    have base := numbered x.1 x.2 (Table.get?_eq_some_iff.mpr member)
    dsimp only
    rw [← base]
    rfl
  rw [renumber, regions]

namespace Device

variable {d d' : Device β α}

/-! ## Rows that are ready -/

/-- Rows are claimed for the present layout. -/
def Ready (d : Device β α) : Prop := d.stage = .claimed d.layout

instance (d : Device β α) : Decidable d.Ready := inferInstanceAs (Decidable (d.stage = _))

theorem not_ready_of_idle (idle : d.stage = .idle) : ¬d.Ready := by
  intro ready
  cases idle.symm.trans ready

/-- Once rows are claimed for an earlier layout, no call that claims none brings that layout back. -/
theorem Stays.ready_iff (stays : Stays d d') (coherent : d.Coherent) :
    d'.Ready ↔ d.Ready ∧ d'.layout = d.layout := by
  unfold Ready
  rw [stays.stage]
  constructor
  · intro claimed
    have same : d'.layout = d.layout := (coherent.raised _ claimed).antisymm stays.raised
    exact ⟨same ▸ claimed, same⟩
  · rintro ⟨claimed, same⟩
    rw [claimed, same]

theorem Alike.ready_iff (alike : Alike d d') : d'.Ready ↔ d.Ready := by
  have layout : d'.layout = d.layout := by rw [← d'.layout_bare, alike.bare, layout_bare]
  rw [Ready, Ready, alike.stage, layout]

theorem checkLayout_of_ready (ready : d.Ready) : d.checkLayout = d := by
  have claimed : d.stage = .claimed d.layout := ready
  simp [checkLayout, claimed]

theorem checkLayout_of_not_ready (unready : ¬d.Ready) : d.checkLayout.stage = .idle := by
  unfold checkLayout
  split
  next layout claimed =>
    split
    next same => exact absurd (claimed.trans (congrArg _ same)) unready
    · rfl
  next idle => exact idle

theorem log_checkLayout (d : Device β α) : d.checkLayout.log = d.log := by
  unfold checkLayout
  split
  · split <;> rfl
  · rfl

theorem name_checkLayout (d : Device β α) : d.checkLayout.name = d.name := by
  unfold checkLayout
  split
  · split <;> rfl
  · rfl

variable [Scalar α]

/-! ## Claiming -/

theorem ready_claimRows (d : Device β α) : d.claimRows.2.Ready ↔ d.claimRows.1 = .ok () := by
  rcases ran : d.claimPass with ⟨e | ⟨⟩, s⟩
  · obtain ⟨log, failed⟩ := claimRows_of_error ran
    rw [failed]
    exact iff_of_false (not_ready_of_idle rfl) (fun ok => nomatch ok)
  · rw [claimRows_of_ok ran]
    exact iff_of_true rfl rfl

/-- While claims are in force, claiming anew changes nothing. -/
theorem InForce.claimRows_eq (inForce : d.InForce) (ready : d.Ready) :
    ∃ log, d.claimRows = (.ok (), { d with log }) := by
  have prepared : d.prepared = { d with stage := .idle, rows := ∅ } := by
    rw [Device.prepared, renumber, inForce.numbered.renumber_eq, ← inForce.circuit]
    rfl
  have slotted : ∀ b ∈ d.prepared.boundaries, b.Slotted d.prepared.parts := by
    rw [prepared]
    exact inForce.slotted
  have claimed := claimed_claimPass slotted
  have entries : RowMap.claimAll d.prepared.entries ∅ = .ok d.rows := by
    rw [prepared]
    exact inForce.claimed
  rw [RowMap.Claimed, entries] at claimed
  obtain ⟨result, rows⟩ := claimed
  rw [claimRows_of_ok (Prod.ext result rfl), rows, prepared]
  refine ⟨d.claimPass.2.log, Prod.ext rfl ?_⟩
  have claimed : d.stage = .claimed d.layout := ready
  exact congrArg (fun stage => { d with stage, log := d.claimPass.2.log }) claimed.symm

theorem Coherent.claimRows_of_ready (coherent : d.Coherent) (ready : d.Ready) :
    ∃ log, d.claimRows = (.ok (), { d with log }) :=
  (coherent.inForce ready).claimRows_eq ready

/-! ## Passes -/

section

variable {select : Selector} (numeric : select ≠ .rows) (time : TimeMode) (out : Records α)

include numeric

theorem assemble_of_ready (ready : d.Ready) :
    d.assemble select time out = d.numericPass select time out := by
  rw [assemble, if_neg numeric]
  dsimp only
  rw [checkLayout_of_ready ready, show d.stage = _ from ready]

theorem assemble_of_not_ready (unready : ¬d.Ready) : d.assemble select time out =
    (.error (.assembly .rowsNotClaimed), { d.checkLayout with
      log := d.log.write .fatal { device := d.name } AssemblyError.rowsNotClaimed.message }, out) := by
  rw [assemble, if_neg numeric]
  dsimp only
  rw [checkLayout_of_not_ready unready, log_checkLayout, name_checkLayout]

theorem ready_assemble (d : Device β α) : (d.assemble select time out).2.1.Ready ↔ d.Ready := by
  by_cases ready : d.Ready
  · rw [assemble_of_ready numeric time out ready]
    exact (alike_numericPass numeric d).ready_iff
  · rw [assemble_of_not_ready numeric time out ready]
    exact iff_of_false (not_ready_of_idle (checkLayout_of_not_ready ready)) ready

end

theorem Coherent.ready_assembleCycle (coherent : d.Coherent) (select : Selector) (time : TimeMode)
    (out : Records α) : (d.assembleCycle select time out).2.1.Ready ↔ d.claimRows.1 = .ok () := by
  have first := d.ready_claimRows
  have claimed := coherent.claimRows
  unfold Device.assembleCycle
  split
  next e d₁ ran =>
    rw [ran] at first ⊢
    exact first
  next d₁ ran =>
    rw [ran] at first claimed ⊢
    refine iff_of_true ?_ rfl
    have ready : d₁.Ready := first.mpr rfl
    by_cases numeric : select = .rows
    · obtain ⟨log, again⟩ := Coherent.claimRows_of_ready claimed ready
      rw [Device.assemble, if_pos numeric, again]
      exact ready
    · exact (ready_assemble numeric time out d₁).mpr ready

/-! ## Calls -/

namespace Change

variable [Precision β α]

/-- The call claims rows, perhaps as the start of a cycle. -/
def IsClaim : Change β α → Prop
  | claimRows | assembleCycle .. => True
  | assemble select _ _ => select = .rows
  | _ => False

/-- The call adds to the device, or changes slots or contacts of a region. -/
def Builds (d : Device β α) : Change β α → Prop
  | addRegion name mesh => ∃ d', d.addRegion name mesh = .ok d'
  | addContact name regionName nodes => ∃ d', d.addContact name regionName nodes = .ok d'
  | addInterface name region0 region1 pairs => ∃ d', d.addInterface name region0 region1 pairs = .ok d'
  | addEquation regionName e => ∃ d', d.addEquation regionName e = .ok d'
  | addContactEquation e => ∃ d', d.addContactEquation e = .ok d'
  | addInterfaceEquation name e => ∃ d', d.addInterfaceEquation name e = .ok d'
  | addCircuitNode .. => True
  | region name change => ∃ r, d.parts.regions.get? name = some r ∧ change.MovesRows r
  | _ => False

def Claims (d : Device β α) (change : Change β α) : Prop := change.IsClaim ∧ d.claimRows.1 = .ok ()

/-- After the call, rows that were claimed have to be claimed anew. -/
def Outdates (d : Device β α) (change : Change β α) : Prop :=
  change.IsClaim ∧ d.claimRows.1 ≠ .ok () ∨ change.Builds d

omit [Scalar α] [Precision β α] in
theorem ready_orElse {result : Except (DeviceError β) (Device β α)}
    (rebuilt : ∀ d', result = .ok d' → Rebuilt d d') :
    (d.orElse result).Ready ↔ d.Ready ∧ ¬∃ d', result = .ok d' := by
  cases result with
  | ok d' => exact iff_of_false (not_ready_of_idle (rebuilt d' rfl).idle) fun h => h.2 ⟨d', rfl⟩
  | error e => exact ⟨fun ready => ⟨ready, fun ⟨_, ok⟩ => nomatch ok⟩, And.left⟩

theorem layout_changeRegion (d : Device β α) (name : String) (change : Region.Change β α) :
    (d.changeRegion name change.apply).layout = d.layout ↔
      ¬∃ r, d.parts.regions.get? name = some r ∧ change.MovesRows r := by
  unfold changeRegion
  cases found : d.parts.regions.get? name with
  | none => simp
  | some r =>
    have only : ∀ x ∈ d.parts.regions.entries, x.1 = name → x.2 = r := fun x member here =>
      Option.some.inj ((Table.get?_eq_some_iff.mpr (here ▸ member)).symm.trans found)
    rw [layout_setRegion, layout_eq, List.map_inj_left]
    have member : (name, r) ∈ d.parts.regions.entries := Table.get?_eq_some_iff.mp found
    simp only [Option.some.injEq, exists_eq_left']
    rw [← change.layoutRevision_apply_eq_iff r]
    constructor
    · intro same
      have here := same _ member
      rw [if_pos rfl] at here
      exact (Prod.mk.inj here).2
    · intro same x member
      split
      next here => rw [only x member here, same, (change.follows r).instanceId]
      · rfl

/-- What a call leaves of rows that are ready: claims that succeed make them ready, claims that fail and
calls that build end that. -/
theorem ready_apply (coherent : d.Coherent) (change : Change β α) :
    (change.apply d).Ready ↔ change.Claims d ∨ d.Ready ∧ ¬change.Outdates d := by
  have claim (claims : change.IsClaim) (still : ¬change.Builds d)
      (after : (change.apply d).Ready ↔ d.claimRows.1 = .ok ()) :
      (change.apply d).Ready ↔ change.Claims d ∨ d.Ready ∧ ¬change.Outdates d := by
    by_cases ok : d.claimRows.1 = .ok () <;> simp [Claims, Outdates, claims, still, after, ok]
  have build (none : ¬change.IsClaim) (after : (change.apply d).Ready ↔ d.Ready ∧ ¬change.Builds d) :
      (change.apply d).Ready ↔ change.Claims d ∨ d.Ready ∧ ¬change.Outdates d := by
    simp [Claims, Outdates, none, after]
  have keep (none : ¬change.IsClaim) (still : ¬change.Builds d) (alike : Alike d (change.apply d)) :
      (change.apply d).Ready ↔ change.Claims d ∨ d.Ready ∧ ¬change.Outdates d :=
    build none (by simp [alike.ready_iff, still])
  -- A call claims, or builds, or leaves rows and layout as they are.
  cases change with
  | addRegion name mesh => exact build id (ready_orElse fun _ => rebuilt_addRegion)
  | addContact name region nodes => exact build id (ready_orElse fun _ => rebuilt_addContact)
  | addInterface name region0 region1 pairs => exact build id (ready_orElse fun _ => rebuilt_addInterface)
  | addEquation region e => exact build id (ready_orElse fun _ => rebuilt_addEquation)
  | addContactEquation e => exact build id (ready_orElse fun _ => rebuilt_addContactEquation)
  | addInterfaceEquation name e => exact build id (ready_orElse fun _ => rebuilt_addInterfaceEquation)
  | addCircuitNode name value =>
    exact build id (iff_of_false (not_ready_of_idle rfl) fun still => still.2 trivial)
  | setCircuitValue name value => exact keep id id (d.alike_setCircuitValue name value)
  | region name change =>
    refine build id (((stays_changeRegion change.follows d name).ready_iff coherent).trans ?_)
    rw [layout_changeRegion]
    exact Iff.rfl
  | declare region kind name calculator => exact keep id id (alike_declare d region kind name calculator)
  | declareOnContact region contact name calculator =>
    exact keep id id (alike_declareOnContact d region contact name calculator)
  | interface name change =>
    exact keep id id (alike_changeInterface change.geometry_apply change.sized_apply d name)
  | takeLog => exact keep id id ⟨rfl, Owner.refl _, rfl, rfl, rfl⟩
  | claimRows => exact claim trivial id d.ready_claimRows
  | assemble select time out =>
    by_cases numeric : select = .rows
    · refine claim numeric id ?_
      have rows : (d.assemble select time out).2.1 = d.claimRows.2 := by
        rw [Device.assemble, if_pos numeric]
      exact (congrArg Ready rows ▸ d.ready_claimRows :)
    · have same : (d.assemble select time out).2.1.Ready ↔ d.Ready := ready_assemble numeric time out d
      exact build numeric (same.trans (by simp [Builds]))
  | assembleCycle select time out => exact claim trivial id (coherent.ready_assembleCycle select time out)
  | update solution => exact keep id id (d.alike_update solution)
  | integrateContacts => exact keep id id d.alike_integrateContacts

end Change

/-! ## Histories -/

variable [Precision β α]

/-- Rows were claimed with success by a call of the history, and are not outdated since. -/
def ClaimedSince (d : Device β α) (changes : List (Change β α)) : Prop :=
  ∃ before claim later, changes = before ++ claim :: later ∧ claim.Claims (d.after before) ∧
    ∀ past call rest, later = past ++ call :: rest →
      ¬call.Outdates (d.after (before ++ claim :: past))

theorem after_concat (d : Device β α) (changes : List (Change β α)) (change : Change β α) :
    d.after (changes ++ [change]) = change.apply (d.after changes) := List.foldl_concat ..

theorem claimedSince_concat (d : Device β α) (changes : List (Change β α)) (change : Change β α) :
    d.ClaimedSince (changes ++ [change]) ↔ change.Claims (d.after changes) ∨
      d.ClaimedSince changes ∧ ¬change.Outdates (d.after changes) := by
  constructor
  · rintro ⟨before, claim, later, split, claims, unbroken⟩
    rcases List.eq_nil_or_concat' later with rfl | ⟨later, last, rfl⟩
    · obtain ⟨rfl, rfl⟩ := List.append_inj' split rfl |>.imp_right List.singleton_inj.mp
      exact .inl claims
    · have split' : changes ++ [change] = (before ++ claim :: later) ++ [last] := by simpa using split
      obtain ⟨rfl, rfl⟩ := List.append_inj' split' rfl |>.imp_right List.singleton_inj.mp
      refine .inr ⟨⟨before, claim, later, rfl, claims, fun past call rest here => ?_⟩, ?_⟩
      · exact unbroken past call (rest ++ [change]) (by simp [here])
      · exact unbroken later change [] rfl
  · rintro (claims | ⟨⟨before, claim, later, rfl, claims, unbroken⟩, still⟩)
    · exact ⟨changes, change, [], rfl, claims, fun past call rest none => by simp at none⟩
    · refine ⟨before, claim, later ++ [change], by simp, claims, fun past call rest here => ?_⟩
      rcases List.eq_nil_or_concat' rest with rfl | ⟨rest, last, rfl⟩
      · obtain ⟨rfl, rfl⟩ := List.append_inj' here rfl |>.imp_right List.singleton_inj.mp
        exact still
      · have split : later ++ [change] = (past ++ call :: rest) ++ [last] := by simpa using here
        exact unbroken past call rest (List.append_inj' split rfl).1

/-- After a history, rows are ready if and only if they were claimed and not outdated since. -/
theorem ready_after (coherent : d.Coherent) (unready : ¬d.Ready) (changes : List (Change β α)) :
    (d.after changes).Ready ↔ d.ClaimedSince changes := by
  induction changes using List.reverseRecOn with
  | nil =>
    refine iff_of_false unready fun ⟨before, claim, later, split, _⟩ => ?_
    simp at split
  | append_singleton changes change ih =>
    rw [after_concat, Change.ready_apply (coherent.after changes), claimedSince_concat, ih]

omit [Scalar α] [Precision β α] in
theorem not_ready_create {name : String} {settings : Settings β} (made : create name settings = .ok d) :
    ¬d.Ready := by
  unfold create at made
  split at made
  · cases made
    exact not_ready_of_idle rfl
  · cases made

/-- A numeric pass runs if and only if rows were claimed with success and not outdated since. Then rows and
numbering are those that claiming anew would give. Otherwise the pass is refused: it says so in the log
and appends nothing. -/
theorem numeric_pass_runs_iff_claimedSince {name : String} {settings : Settings β} {d₀ : Device β α}
    (made : create name settings = .ok d₀) (changes : List (Change β α)) {select : Selector}
    (numeric : select ≠ .rows) (time : TimeMode) (out : Records α) :
    let d := d₀.after changes
    let pass := d.assemble select time out
    (pass.1 ≠ .error (.assembly .rowsNotClaimed) ↔ d₀.ClaimedSince changes) ∧
    (d₀.ClaimedSince changes → pass = d.numericPass select time out ∧
      ∃ log, d.claimRows = (.ok (), { d with log })) ∧
    (¬d₀.ClaimedSince changes → pass.1 = .error (.assembly .rowsNotClaimed) ∧
      pass.2.1.log = d.log.write .fatal { device := d.name }
        "assembly pass ran before the permutation pass" ∧ pass.2.2 = out) := by
  intro d pass
  have coherent : d.Coherent := (coherent_create made).after changes
  have since : d.Ready ↔ d₀.ClaimedSince changes :=
    ready_after (coherent_create made) (not_ready_create made) changes
  rw [← since]
  by_cases ready : d.Ready
  · have runs : pass = d.numericPass select time out := assemble_of_ready numeric time out ready
    refine ⟨iff_of_true (fun refused => ?_) ready, fun _ => ⟨runs, coherent.claimRows_of_ready ready⟩,
      fun unready => absurd ready unready⟩
    rw [runs] at refused
    obtain ⟨cause, same, fails⟩ := d.fails_numericPass time numeric out refused
    cases same
    exact fails
  · have refused := assemble_of_not_ready numeric time out ready
    refine ⟨iff_of_false (fun past => past (congrArg Prod.fst refused)) ready, fun here => absurd here ready,
      fun _ => ?_⟩
    exact ⟨congrArg Prod.fst refused, congrArg (·.2.1.log) refused, congrArg (·.2.2) refused⟩

/-- A claim lasts over a change of a model and a pass. It ends with a new slot in a region, although rows
of the device are where they were. -/
theorem numeric_pass_runs_until_new_slot :
    let mesh : Mesh ℚ := ⟨.segment, #[⟨0, 0, 0⟩, ⟨1, 0, 0⟩], #[⟨0, 1⟩], #[]⟩
    let d₀ : Device ℚ ℚ := { name := "device", settings := {} }
    let calls : List (Change ℚ ℚ) := [.addRegion "bulk" mesh,
      .addEquation "bulk" { name := "e", variableName := "u" }, .claimRows,
      .region "bulk" (.setUniform .node "u" 1), .assemble .both .steady {}]
    d₀.ClaimedSince calls ∧ ¬d₀.ClaimedSince (calls ++ [.region "bulk" (.addEquation "e" "u")]) := by
  intro mesh d₀ calls
  have made : create "device" {} = .ok d₀ := create_of_valid (by decide +kernel)
  have runs : ((d₀.after calls).assemble .both .steady {}).1.toBool = true := by decide +kernel
  have outdated : ¬(d₀.after (calls ++ [.region "bulk" (.addEquation "e" "u")])).Ready := by
    decide +kernel
  have numeric : Selector.both ≠ .rows := by decide
  refine ⟨?_, fun since => ?_⟩
  · refine (numeric_pass_runs_iff_claimedSince made calls numeric .steady {}).1.mp fun refused => ?_
    rw [refused] at runs
    cases runs
  · exact (numeric_pass_runs_iff_claimedSince made _ numeric .steady {}).1.mpr since
      (congrArg Prod.fst (assemble_of_not_ready numeric .steady {} outdated))

end Device

end FiniteVolume
