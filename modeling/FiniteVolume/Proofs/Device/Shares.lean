import Mathlib.Data.List.Pairwise
import FiniteVolume.Proofs.Device.Moves

/-!
Who writes to which row.

`Pass.shares` cuts what a pass appends into the shares of its steps. In a numeric pass over a device, no
two boundary equations write to one row of the regions, and a row that a boundary equation takes over
has records of this equation only (`Device.boundary_rows_have_one_owner`).
-/
namespace FiniteVolume

variable {β α : Type}

namespace Records

def since (before after : Records α) : Records α :=
  ⟨after.matrix.drop before.matrix.length, after.residual.drop before.residual.length⟩

theorem since_append (r s : Records α) : since r (r.append s) = s := by simp [since, append]

theorem mem_rows_permute {r : Records α} {moves : RowMap} {row : Nat} :
    row ∈ (r.permute moves).rows ↔ ∃ row' ∈ r.rows, row ∈ moves.destinations row' := by
  simp only [rows, permute, List.mem_append, List.mem_map, List.mem_flatMap]
  constructor
  · rintro (⟨_, ⟨m, member, target, lands, rfl⟩, rfl⟩ | ⟨_, ⟨m, member, target, lands, rfl⟩, rfl⟩)
    · exact ⟨m.row, .inl ⟨m, member, rfl⟩, lands⟩
    · exact ⟨m.row, .inr ⟨m, member, rfl⟩, lands⟩
  · rintro ⟨_, ⟨m, member, rfl⟩ | ⟨m, member, rfl⟩, lands⟩
    · exact .inl ⟨_, ⟨m, member, row, lands, rfl⟩, rfl⟩
    · exact .inr ⟨_, ⟨m, member, row, lands, rfl⟩, rfl⟩

end Records

/-- Where the targets of moves are not claimed, a row that keeps no copy receives nothing. -/
theorem RowMap.not_mem_destinations {m : RowMap} {row : Nat} {move : RowMove}
    (final : ∀ row' move' target, m.get? row' = some move' → move'.target? = some target →
      m.get? target = none) (here : m.get? row = some move) (keeps : move.keepsCopy = false)
    (row' : Nat) : row ∉ m.destinations row' := by
  unfold destinations
  cases found : m.get? row' with
  | none =>
    intro lands
    cases List.mem_singleton.mp lands
    cases here.symm.trans found
  | some move' =>
    intro lands
    cases move' with
    | dropped => cases lands
    | moved target keepCopy =>
      rcases List.mem_cons.mp lands with rfl | stays
      · cases here.symm.trans (final row' _ row found rfl)
      · cases keepCopy with
        | false => cases stays
        | true =>
          cases List.mem_singleton.mp stays
          cases here.symm.trans found
          cases keeps

namespace Pass

variable {σ ι : Type} {body : ι → Pass σ α Unit}

/-- What the steps for the elements of a list append, share by share, as far as they succeed. -/
def shares (body : ι → Pass σ α Unit) : List ι → PassState σ α → List (Records α)
  | [], _ => []
  | x :: rest, s =>
    match body x s with
    | (.ok (), s') => .since s.out s'.out :: shares body rest s'
    | (.error _, s') => [.since s.out s'.out]

theorem shares_of_ok [Owner σ] {post : ι → σ → Records α → Prop} {items : List ι}
    (writes : ∀ x ∈ items, Writes (body x) fun _ => post x) {s s' : PassState σ α}
    (ran : items.forM body s = (.ok (), s')) :
    Owner.Later s.owner s'.owner ∧ s'.out = s.out.append (.join (shares body items s)) ∧
      List.Forall₂ (fun x share => post x s'.owner share) items (shares body items s) := by
  induction items generalizing s with
  | nil =>
    cases ran
    exact ⟨Owner.refl _, (Records.append_empty _).symm, .nil⟩
  | cons x rest ih =>
    obtain ⟨⟨⟩, s₁, first, second⟩ := bind_eq_ok ran
    obtain ⟨-, later, succeeded⟩ := (writes x (by simp)).ran s
    rw [first] at later succeeded
    obtain ⟨records, out, holds⟩ := succeeded () rfl
    obtain ⟨later', out', all⟩ := ih (fun y member => writes y (by simp [member])) second
    have share : shares body (x :: rest) s = records :: shares body rest s₁ := by
      rw [shares, first]
      dsimp only at out ⊢
      rw [out, Records.since_append]
    rw [share]
    refine ⟨Owner.trans later later', ?_, .cons (holds _ later') all⟩
    rw [out', out, Records.append_assoc, Records.join_cons]

end Pass

variable [BaseScalar β]

/-- The boundary equation takes over the row of the place: bulk records do not stay there. -/
def Boundary.TakesOver (p : Parts β α) (x : Place) : Boundary β → Prop
  | contact region e mask => x.region = region ∧ x.equation = e.name ∧ isActive mask x.node = true
  | interface name e mask => e.coupling = .continuous ∧ ∃ j, p.junctions.get? name = some j ∧
      ∃ pair ∈ j.geometry.activePairs mask, x = e.placeAt j.geometry .second pair

instance (p : Parts β α) (x : Place) (b : Boundary β) : Decidable (b.TakesOver p x) :=
  match b with
  | .contact region e mask =>
    inferInstanceAs (Decidable (x.region = region ∧ x.equation = e.name ∧ isActive mask x.node = true))
  | .interface name e mask =>
    decidable_of_iff (e.coupling = .continuous ∧ (p.junctions.get? name).any (fun j =>
        ∃ pair ∈ j.geometry.activePairs mask, x = e.placeAt j.geometry .second pair) = true) (by
      simp only [Option.any_eq_true, decide_eq_true_eq]
      rfl)

namespace Device

variable {d : Device β α} {b b' : Boundary β} {x : Place} {row : Nat}

theorem owns_of_takesOver {p : Parts β α} (takes : b.TakesOver p x) : b.Owns p x := by
  cases b with
  | contact region e mask => exact takes
  | interface name e mask =>
    obtain ⟨-, j, found, pair, active, rfl⟩ := takes
    exact ⟨j, found, pair, active, .second, rfl⟩

theorem InForce.get?_of_takesOver (inForce : d.InForce) (built : d.WellBuilt)
    (member : b ∈ d.boundaries) (takes : b.TakesOver d.parts x) (here : d.parts.row? x = some row) :
    ∃ move, d.rows.get? row = some move ∧ move.keepsCopy = false := by
  have claims : ∃ c ∈ b.claims d.parts, c.place = x ∧
      (c.entry d.parts).2.keepsCopy = false := by
    cases b with
    | contact region e mask =>
      obtain ⟨r, found, -⟩ := built.inside member takes
      obtain ⟨rfl, equation, active⟩ := takes
      refine ⟨⟨x, none⟩, Boundary.mem_claims_contact.mpr ⟨?_, x.node, active, ?_⟩, rfl, rfl⟩
      · exact Option.isSome_iff_exists.mpr ⟨r, found⟩
      · rw [← equation]
    | interface name e mask =>
      obtain ⟨continuous, j, found, pair, active, rfl⟩ := takes
      obtain ⟨coupled, found', rfl⟩ := built.coupled? found
      have moves : e.coupling.keepsCopy? = some false := by rw [continuous]; rfl
      exact ⟨_, Boundary.mem_claims_interface.mpr ⟨coupled, found', pair, false, moves, active, rfl⟩,
        rfl, rfl⟩
  obtain ⟨c, isClaim, rfl, keeps⟩ := claims
  have first : (c.entry d.parts).1 = row := by rw [Claim.entry, Parts.rowAt, here, Option.getD_some]
  refine ⟨_, (RowMap.get?_eq_some_iff_of_claimAll inForce.claimed).mpr ?_, keeps⟩
  exact mem_entries.mpr ⟨b, member, c, isClaim, Prod.ext first rfl⟩

theorem InForce.not_mem_permute (inForce : d.InForce) (built : d.WellBuilt)
    (member : b ∈ d.boundaries) (takes : b.TakesOver d.parts x) (here : d.parts.row? x = some row)
    (bulk : Records α) : row ∉ (bulk.permute d.rows).rows := by
  intro lands
  obtain ⟨row', -, lands⟩ := Records.mem_rows_permute.mp lands
  obtain ⟨move, found, keeps⟩ := inForce.get?_of_takesOver built member takes here
  refine RowMap.not_mem_destinations (fun row' move' target found' moved => ?_) found keeps row' lands
  exact (inForce.moves built (RowMap.mem_entries_of_get? found') moved).2

/-- A row has one owner in the list of boundary equations. -/
theorem InForce.index_unique (inForce : d.InForce) (built : d.WellBuilt) {y : Place} {i k : Nat}
    (first : d.boundaries[i]? = some b) (second : d.boundaries[k]? = some b')
    (owns : b.Owns d.parts x) (owns' : b'.Owns d.parts y) (here : d.parts.row? x = some row)
    (here' : d.parts.row? y = some row) : i = k := by
  obtain rfl : x = y := inForce.numbered.row?_injective here here'
    (built.inside (List.mem_of_getElem? first) owns)
    (built.inside (List.mem_of_getElem? second) owns')
  have apart := List.pairwise_iff_getElem.mp built.boundaries_apart
  obtain ⟨below, rfl⟩ := List.getElem?_eq_some_iff.mp first
  obtain ⟨below', rfl⟩ := List.getElem?_eq_some_iff.mp second
  rcases Nat.lt_trichotomy i k with before | same | after
  · exact absurd owns' (apart i k below below' before x owns)
  · exact same
  · exact absurd owns (apart k i below' below after x owns')

/-! ## Shares of a pass -/

variable [Scalar α]

def boundaryShares (d : Device β α) (select : Selector) (time : TimeMode) (out : Records α) :
    List (Records α) :=
  Pass.shares (Boundary.step d select time) d.boundaries
    { owner := d.parts, rows := d.rows, log := d.log, out }

def bulkRecords (d : Device β α) (select : Selector) (time : TimeMode) (out : Records α) :
    Records α :=
  let d := (d.run out (d.boundaryPass select time)).2.1
  (d.run {} (d.bulkPass select time)).2.2

/-- What the bulk equations append in a numeric pass, on the rows where it lands. -/
def bulkShare (d : Device β α) (select : Selector) (time : TimeMode) (out : Records α) :
    Records α :=
  let d := (d.run out (d.boundaryPass select time)).2.1
  let bulk := d.run {} (d.bulkPass select time)
  bulk.2.2.permute bulk.2.1.rows

variable {d' : Device β α} {select : Selector} {time : TimeMode} {out out' : Records α}
  (numeric : select ≠ .rows)

include numeric

/-- A numeric pass that succeeds finds the rows claimed for the present layout. -/
theorem assemble_eq_ok (ran : d.assemble select time out = (.ok (), d', out')) :
    d.stage = .claimed d.layout ∧ d.numericPass select time out = (.ok (), d', out') := by
  unfold assemble at ran
  rw [if_neg numeric] at ran
  dsimp only at ran
  have present : ∀ l, d.checkLayout.stage = .claimed l →
      d.stage = .claimed d.layout ∧ d.checkLayout = d := by
    intro l claimed
    unfold checkLayout at claimed ⊢
    split
    next layout stage =>
      split
      next same => exact ⟨same ▸ stage, rfl⟩
      next other =>
        rw [stage] at claimed
        dsimp only at claimed
        rw [if_neg other] at claimed
        cases claimed
    next stage =>
      rw [stage] at claimed
      cases claimed.symm.trans stage
  split at ran
  next l claimed =>
    obtain ⟨stage, same⟩ := present l claimed
    exact ⟨stage, same ▸ ran⟩
  · cases ran

omit numeric in
theorem numericPass_eq_ok (ran : d.numericPass select time out = (.ok (), d', out')) :
    ∃ s, d.boundaryPass select time (d.passState out) = (.ok (), s) ∧
      out' = s.out.append (d.bulkShare select time out) := by
  unfold numericPass at ran
  split at ran
  · cases ran
  next d₁ out₁ boundary =>
    split at ran
    · cases ran
    next d₂ bulk inBulk =>
      cases ran
      have share : d.bulkShare select time out = bulk.permute d'.rows := by
        unfold bulkShare
        rw [boundary]
        dsimp only
        rw [inBulk]
      rw [share]
      rcases first : d.boundaryPass select time (d.passState out) with ⟨result, s⟩
      rw [run_eq d out first] at boundary
      cases boundary
      exact ⟨s, rfl, rfl⟩

omit numeric in
theorem bulkPass_eq_ok {s : PassState (Parts β α) α}
    (ran : d.numericPass select time out = (.ok (), d', out'))
    (boundary : d.boundaryPass select time (d.passState out) = (.ok (), s)) :
    ∃ s', d.bulkPass select time { owner := s.owner, rows := s.rows, log := s.log } = (.ok (), s') ∧
      s'.out = d.bulkRecords select time out ∧ s'.owner = d'.parts := by
  have after := run_eq d out boundary
  unfold numericPass at ran
  unfold bulkRecords
  rw [after] at ran ⊢
  generalize reached : { d with parts := s.owner, rows := s.rows, log := s.log } = d₁ at ran ⊢
  dsimp only at ran ⊢
  rcases bulk : d₁.bulkPass select time (d₁.passState {}) with ⟨result, s'⟩
  rw [run_eq d₁ {} bulk] at ran ⊢
  subst reached
  cases result with
  | error e => cases ran
  | ok _ =>
    cases ran
    exact ⟨s', bulk, rfl, rfl⟩

theorem bulkShare_eq (d : Device β α) (time : TimeMode) (out : Records α) :
    d.bulkShare select time out = (d.bulkRecords select time out).permute d.rows := by
  have boundary := d.alike_run out (d.writes_boundaryPass numeric time)
  have bulk (d₁ : Device β α) := d₁.alike_run {} (d₁.writes_bulkPass numeric time)
  exact congrArg (Records.permute _) ((bulk _).rows.trans boundary.rows)

theorem exists_permute_eq_bulkShare (d : Device β α) (time : TimeMode) (out : Records α) :
    ∃ bulk : Records α, bulk.permute d.rows = d.bulkShare select time out :=
  ⟨_, (bulkShare_eq numeric d time out).symm⟩

/-- Every boundary equation writes to rows of places that it owns and to rows of circuit nodes. -/
theorem owns_of_mem_boundaryShares {s : PassState (Parts β α) α}
    (ran : d.boundaryPass select time (d.passState out) = (.ok (), s)) :
    s.out = out.append (.join (d.boundaryShares select time out)) ∧
      List.Forall₂ (fun b share => ∀ row ∈ share.rows,
        (∃ x, b.Owns d.parts x ∧ d.parts.row? x = some row) ∨ d.circuit.base ≤ row)
        d.boundaries (d.boundaryShares select time out) := by
  rw [boundaryPass_eq] at ran
  obtain ⟨later, appended, all⟩ := Pass.shares_of_ok
    (fun b _ => (b.writes_step d numeric).mono fun _ _ _ holds => holds) ran
  have same : s.owner.bare = d.parts.bare := later.bare
  refine ⟨appended, all.imp fun b share holds row member => ?_⟩
  refine (holds row member).imp_left ?_
  rintro ⟨x, owns, found⟩
  refine ⟨x, ?_, ?_⟩
  · rwa [← b.owns_parts_bare, ← same, b.owns_parts_bare]
  · rwa [← Parts.row?_bare, ← same, Parts.row?_bare]

theorem InForce.exists_owner_of_mem_share (inForce : d.InForce) {s : PassState (Parts β α) α}
    (ran : d.boundaryPass select time (d.passState out) = (.ok (), s)) {k : Nat} {share : Records α}
    (found : (d.boundaryShares select time out)[k]? = some share) (member : row ∈ share.rows)
    (below : row < d.parts.rowCount) :
    ∃ b x, d.boundaries[k]? = some b ∧ b.Owns d.parts x ∧ d.parts.row? x = some row := by
  obtain ⟨-, owned⟩ := owns_of_mem_boundaryShares numeric ran
  have length := owned.length_eq
  obtain ⟨inside, rfl⟩ := List.getElem?_eq_some_iff.mp found
  have holds := owned.get (length ▸ inside) inside row member
  rw [inForce.circuit] at holds
  obtain ⟨x, owns, here⟩ := holds.resolve_right (Nat.not_le_of_lt below)
  exact ⟨_, x, List.getElem?_eq_getElem (length ▸ inside), owns, here⟩

/-- A numeric pass appends the shares of the boundary equations and the moved records of the bulk
equations. No two boundary equations write to one row of the regions. To a row that a boundary equation
takes over, neither the bulk equations nor any other boundary equation write. -/
theorem boundary_rows_have_one_owner [Precision β α] (reached : d.Reached)
    (ran : d.assemble select time out = (.ok (), d', out')) :
    out' = out.append ((Records.join (d.boundaryShares select time out)).append
      (d.bulkShare select time out)) ∧
    (d.boundaryShares select time out).length = d.boundaries.length ∧
    (d.boundaryShares select time out).Pairwise (fun share share' =>
      ∀ row < d.parts.rowCount, row ∈ share.rows → row ∉ share'.rows) ∧
    ∀ (i : Nat) (b : Boundary β), d.boundaries[i]? = some b → ∀ x, b.TakesOver d.parts x →
      ∀ row, d.parts.row? x = some row → row ∉ (d.bulkShare select time out).rows ∧
        ∀ (k : Nat) (share : Records α), (d.boundaryShares select time out)[k]? = some share →
          row ∈ share.rows → k = i := by
  obtain ⟨stage, ran⟩ := assemble_eq_ok numeric ran
  obtain ⟨s, boundary, appended⟩ := numericPass_eq_ok ran
  obtain ⟨out₁, owned⟩ := owns_of_mem_boundaryShares numeric boundary
  have built := reached.coherent.built
  have inForce := reached.coherent.inForce stage
  refine ⟨?_, owned.length_eq.symm, ?_, fun i b found x takes row here => ⟨?_, ?_⟩⟩
  · rw [appended, out₁, Records.append_assoc]
  · refine List.pairwise_iff_getElem.mpr fun i k inside inside' before row below member member' => ?_
    obtain ⟨b, x, first, owns, here⟩ := inForce.exists_owner_of_mem_share numeric boundary
      (List.getElem?_eq_getElem inside) member below
    obtain ⟨b', y, second, owns', here'⟩ := inForce.exists_owner_of_mem_share numeric boundary
      (List.getElem?_eq_getElem inside') member' below
    exact absurd (inForce.index_unique built first second owns owns' here here')
      (Nat.ne_of_lt before)
  · obtain ⟨bulk, same⟩ := exists_permute_eq_bulkShare numeric d time out
    exact same ▸ inForce.not_mem_permute built (List.mem_of_getElem? found) takes here bulk
  · intro k share inShares member
    have owns := owns_of_takesOver takes
    have below := inForce.numbered.row?_lt here (built.inside (List.mem_of_getElem? found) owns)
    obtain ⟨b', y, second, owns', here'⟩ :=
      inForce.exists_owner_of_mem_share numeric boundary inShares member below
    exact inForce.index_unique built second found owns' owns here' here

omit numeric in
/-- Two regions that meet at an interface, with a contact on another node: only the contact equation
writes to row 3, and no bulk record stays on row 2. -/
theorem boundary_rows_have_one_owner_at_interface :
    let mesh : Mesh ℚ := ⟨.segment, #[⟨0, 0, 0⟩, ⟨1, 0, 0⟩], #[⟨0, 1⟩], #[]⟩
    let e : BulkEquation ℚ := { name := "e", variableName := "u", models := { node := "f" } }
    let d : Device ℚ ℚ := after { name := "device", settings := {} }
      [.addRegion "left" mesh, .addRegion "right" mesh,
        .region "left" (.setUniform .node "NodeVolume" 1),
        .region "right" (.setUniform .node "NodeVolume" 1), .region "left" (.setUniform .node "f" 2),
        .region "right" (.setUniform .node "f" 2), .addContact "end" "right" [1],
        .addInterface "middle" "left" "right" [(1, 0)], .addEquation "left" e, .addEquation "right" e,
        .addContactEquation { name := "e", contact := "end", models := { node := "f" } },
        .interface "middle" (.setUniform "m" 3),
        .addInterfaceEquation "middle" { name := "i", name0 := "e", name1 := "e", model := "m" },
        .claimRows]
    (∃ d' out', d.assemble .residual .steady {} = (.ok (), d', out')) ∧
    (∃ share, (d.boundaryShares .residual .steady {})[0]? = some share ∧ 3 ∈ share.rows) ∧
    (∀ (k : Nat) (share : Records ℚ), (d.boundaryShares .residual .steady {})[k]? = some share →
      3 ∈ share.rows → k = 0) ∧
    3 ∉ (d.bulkShare .residual .steady {}).rows ∧ 2 ∉ (d.bulkShare .residual .steady {}).rows := by
  intro mesh e d
  have reached : d.Reached := reached_after (by decide +kernel) _
  have succeeds : (d.assemble .residual .steady {}).1.toBool = true := by decide +kernel
  have contact : ∀ b ∈ d.boundaries[0]?, b.TakesOver d.parts ⟨"right", "e", 1⟩ := by decide +kernel
  have interface : ∀ b ∈ d.boundaries[1]?, b.TakesOver d.parts ⟨"right", "e", 0⟩ := by decide +kernel
  have written : ∃ share ∈ (d.boundaryShares .residual .steady {})[0]?, 3 ∈ share.rows := by
    decide +kernel
  have first : (d.boundaries[0]?).isSome = true ∧ (d.boundaries[1]?).isSome = true := by decide +kernel
  have row3 : d.parts.row? ⟨"right", "e", 1⟩ = some 3 := by decide +kernel
  have row2 : d.parts.row? ⟨"right", "e", 0⟩ = some 2 := by decide +kernel
  clear_value d
  obtain ⟨b, found⟩ := Option.isSome_iff_exists.mp first.1
  obtain ⟨b', found'⟩ := Option.isSome_iff_exists.mp first.2
  obtain ⟨⟨⟩, ⟨d', out'⟩, ran⟩ := exists_eq_ok_of_toBool succeeds
  obtain ⟨-, -, -, only⟩ := boundary_rows_have_one_owner (by decide) reached ran
  obtain ⟨free, writers⟩ := only 0 b found _ (contact b found) 3 row3
  obtain ⟨free', -⟩ := only 1 b' found' _ (interface b' found') 2 row2
  exact ⟨⟨d', out', ran⟩, written, writers, free, free'⟩

end Device

end FiniteVolume
