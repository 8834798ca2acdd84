import FiniteVolume.Proofs.Assembly.Claims
import FiniteVolume.Proofs.Device.Numbering
import FiniteVolume.Proofs.Model.Coupled

/-!
Passes over parts of a device.

`Parts.bare` forgets models, parameters and remarks. Numeric passes leave this part alone, so the
steps of an equation on its region or interface keep their rules as steps on the device
(`Parts.writes_onRegion`, `Parts.writes_onCoupled`), and so do claims of rows
(`Parts.claims_onRegion`, `Parts.claims_onCoupled`).
-/
namespace FiniteVolume

variable {β α : Type}

namespace Table

variable {κ ν : Type} [DecidableEq κ] {t : Table κ ν} {k : κ} {v : ν}

/-- Writing what looks the same as what is there changes nothing of how the table looks. -/
theorem mapEntries_modify {f : κ → ν → ν} (found : (t.mapEntries f).get? k = some (f k v)) :
    (t.modify k fun _ => v).mapEntries f = t.mapEntries f := by
  apply ext_entries
  simp only [mapEntries, modify, List.map_map]
  refine List.map_congr_left fun e member => ?_
  by_cases here : e.1 = k
  · have same : (t.mapEntries f).get? k = some (f e.1 e.2) := by
      rw [get?_mapEntries, ← here, get?_eq_some_iff.mpr member]
      rfl
    simp [here, ← Option.some.inj (found.symm.trans (here ▸ same))]
  · simp [here]

omit [DecidableEq κ] in
theorem mapEntries_mapEntries (t : Table κ ν) (f g : κ → ν → ν) :
    (t.mapEntries f).mapEntries g = t.mapEntries fun k v => g k (f k v) :=
  ext_entries (List.map_map ..)

theorem modify_mapEntries (t : Table κ ν) (k : κ) (v : ν) (f : ν → ν) :
    ((t.mapEntries fun _ => f).modify k fun _ => f v) =
    (t.modify k fun _ => v).mapEntries fun _ => f := by
  apply ext_entries
  simp only [mapEntries, modify, List.map_map]
  refine List.map_congr_left fun e _ => ?_
  by_cases here : e.1 = k <;> simp [here]

theorem insert_mapEntries (t : Table κ ν) (k : κ) (v : ν) (f : ν → ν) :
    (t.mapEntries fun _ => f).insert k (f v) =
    (t.insert k v).mapEntries fun _ => f := by
  have keys : (t.mapEntries fun _ => f).entries.map Prod.fst = t.entries.map Prod.fst :=
    keys_mapEntries t _
  by_cases present : k ∈ t.entries.map Prod.fst
  · rw [insert, dif_pos (keys ▸ present), insert, dif_pos present, modify_mapEntries]
  · rw [insert, dif_neg (keys ▸ present), insert, dif_neg present]
    exact ext_entries (by simp [mapEntries])

end Table

namespace Pass

variable {σ τ ρ : Type} {part? : σ → Option τ} {put : σ → τ → σ}

def onPart? (part? : σ → Option τ) (put : σ → τ → σ) (step : Pass τ α ρ) : Pass σ α (Option ρ) := do
  match part? (← get).owner with
  | none => return none
  | some t => some <$> Pass.onPart (fun _ => t) put step

theorem run_map {υ : Type} {a : Pass σ α ρ} (g : ρ → υ) (s : PassState σ α) :
    (g <$> a : Pass σ α υ) s = ((a s).1.map g, (a s).2) := by
  rw [map_eq_pure_bind]
  rcases ran : a s with ⟨e | x, s'⟩
  · exact bind_of_error ran
  · exact bind_of_ok ran

theorem run_discard {a : Pass σ α ρ} (s : PassState σ α) :
    (discard a : Pass σ α Unit) s = ((a s).1.map fun _ => (), (a s).2) := run_map _ s

variable {s : PassState σ α} {t : τ}

theorem run_onPart? {step : Pass τ α ρ} (found : part? s.owner = some t) :
    onPart? part? put step s = ((step { s with owner := t }).1.map some,
      { (step { s with owner := t }).2 with
        owner := put s.owner (step { s with owner := t }).2.owner }) := by
  unfold onPart?
  rw [bind_get, found]
  exact run_map some s

theorem run_onPart?_of_missing {step : Pass τ α ρ} (missing : part? s.owner = none) :
    onPart? part? put step s = (.ok none, s) := by
  unfold onPart?
  rw [bind_get, missing]
  rfl

theorem run_discard_onPart? {step : Pass τ α Unit} (found : part? s.owner = some t) :
    (discard (onPart? part? put step) : Pass σ α Unit) s = ((step { s with owner := t }).1,
      { (step { s with owner := t }).2 with
        owner := put s.owner (step { s with owner := t }).2.owner }) := by
  rw [run_discard, run_onPart? found]
  cases (step { s with owner := t }).1 <;> rfl

theorem run_discard_onPart?_of_missing {step : Pass τ α Unit} (missing : part? s.owner = none) :
    (discard (onPart? part? put step) : Pass σ α Unit) s = (.ok (), s) := by
  rw [run_discard, run_onPart?_of_missing missing]
  rfl

theorem Claims.onPart? {step : Pass τ α Unit} {slotted : τ → Prop}
    {claims : τ → List (Nat × RowMove)} (h : Claims step slotted claims)
    (put_self : ∀ o t, part? o = some t → put o t = o) :
    Claims (discard (onPart? part? put step) : Pass σ α Unit) (fun o => ∀ t ∈ part? o, slotted t)
      fun o => (part? o).toList.flatMap claims := by
  constructor
  case owner =>
    intro s
    cases found : part? s.owner with
    | none => rw [run_discard_onPart?_of_missing found]
    | some t =>
      rw [run_discard_onPart? found]
      exact (congrArg (put s.owner) (h.owner _)).trans (put_self _ _ found)
  case claimed =>
    intro s slots
    cases found : part? s.owner with
    | none =>
      rw [run_discard_onPart?_of_missing found]
      exact ⟨rfl, rfl⟩
    | some t =>
      rw [run_discard_onPart? found]
      simpa using h.claimed { s with owner := t } (slots t found)
  case refused =>
    intro s missing
    simp only [not_forall] at missing
    obtain ⟨t, found, missing⟩ := missing
    rw [run_discard_onPart? found]
    exact h.refused { s with owner := t } missing

theorem Writes.onPart? [Owner σ] [Owner τ] {step : Pass τ α Unit} {post : τ → Records α → Prop}
    (writes : Writes step fun _ => post)
    (forward : ∀ {o t t'}, part? o = some t → Owner.Later t t' → Owner.Later o (put o t'))
    (keeps : ∀ {o o' t t' records}, Owner.Later o o' → part? o = some t → Owner.Later t t' →
      post t' records → ∃ t'', part? o' = some t'' ∧ post t'' records)
    (absent : ∀ {o o'}, Owner.Later o o' → part? o = none → part? o' = none) :
    Writes (discard (onPart? part? put step) : Pass σ α Unit) fun _ o records =>
      (part? o = none ∧ records = {}) ∨ ∃ t, part? o = some t ∧ post t records := by
  refine ⟨fun s => ?_⟩
  cases found : part? s.owner with
  | none =>
    rw [run_discard_onPart?_of_missing found]
    refine ⟨rfl, Owner.refl _, fun _ _ => ⟨{}, (Records.append_empty _).symm, fun o later => ?_⟩⟩
    exact .inl ⟨absent later found, rfl⟩
  | some t =>
    rw [run_discard_onPart? found]
    obtain ⟨rows, later, succeeded⟩ := writes.ran { s with owner := t }
    refine ⟨rows, forward found later, fun x ran => ?_⟩
    obtain ⟨records, out, holds⟩ := succeeded x ran
    refine ⟨records, out, fun o after => .inr ?_⟩
    exact keeps (Owner.trans (forward found later) after) found later (holds _ (Owner.refl _))

end Pass

/-- What rows depend on of an interface: its node pairs. -/
def Junction.bare (j : Junction β α) : Junction β α := { device := "", geometry := j.geometry }

theorem Junction.bare_eq_iff {j j' : Junction β α} : j'.bare = j.bare ↔ j'.geometry = j.geometry :=
  ⟨fun same => (congrArg Junction.geometry same :), fun same => by rw [bare, bare, same]⟩

namespace Parts

/-- The parts without models, parameters and remarks. -/
def bare (p : Parts β α) : Parts β α where
  regions := p.regions.mapEntries fun _ => Region.bare
  junctions := p.junctions.mapEntries fun _ => Junction.bare

/-- Every value that is kept has one entry for every entity of its domain. -/
structure Sized (p : Parts β α) : Prop where
  regions : ∀ name r, p.regions.get? name = some r → r.Sized
  junctions : ∀ name j, p.junctions.get? name = some j → j.Sized

/-- Reads and writes of values lead from parts to parts that are the same apart from values. -/
structure Leads (p p' : Parts β α) : Prop where
  bare : p'.bare = p.bare
  sized : p.Sized → p'.Sized

instance : Owner (Parts β α) where
  Later := Leads
  refl _ := ⟨rfl, id⟩
  trans first second := ⟨second.bare.trans first.bare, second.sized ∘ first.sized⟩

section

variable {p p' : Parts β α} {name : String} {r : Region β α} {j : Junction β α}

theorem Sized.setRegion (sized : p.Sized) (fits : r.Sized) : (p.setRegion name r).Sized := by
  refine ⟨fun name' r' found => ?_, sized.junctions⟩
  rw [Parts.setRegion, Table.get?_modify] at found
  split at found
  · obtain ⟨-, -, rfl⟩ := Option.map_eq_some_iff.mp found
    exact fits
  · exact sized.regions name' r' found

theorem Sized.setJunction (sized : p.Sized) (fits : j.Sized) : (p.setJunction name j).Sized := by
  refine ⟨sized.regions, fun name' j' found => ?_⟩
  rw [Parts.setJunction, Table.get?_modify] at found
  split at found
  · obtain ⟨-, -, rfl⟩ := Option.map_eq_some_iff.mp found
    exact fits
  · exact sized.junctions name' j' found

theorem get?_regions_bare (p : Parts β α) (name : String) :
    p.bare.regions.get? name = (p.regions.get? name).map Region.bare := Table.get?_mapEntries ..

theorem get?_junctions_bare (p : Parts β α) (name : String) :
    p.bare.junctions.get? name = (p.junctions.get? name).map Junction.bare := Table.get?_mapEntries ..

theorem get?_regions_of_bare_eq (same : p'.bare = p.bare) (found : p.regions.get? name = some r) :
    ∃ r', p'.regions.get? name = some r' ∧ r'.bare = r.bare := by
  have bare := p'.get?_regions_bare name
  rw [same, get?_regions_bare, found] at bare
  exact Option.map_eq_some_iff.mp bare.symm

theorem get?_junctions_of_bare_eq (same : p'.bare = p.bare)
    (found : p.junctions.get? name = some j) :
    ∃ j', p'.junctions.get? name = some j' ∧ j'.bare = j.bare := by
  have bare := p'.get?_junctions_bare name
  rw [same, get?_junctions_bare, found] at bare
  exact Option.map_eq_some_iff.mp bare.symm

theorem bare_setRegion (same : (p.regions.get? name).map Region.bare = some r.bare) :
    (p.setRegion name r).bare = p.bare := by
  have regions : (p.setRegion name r).bare.regions = p.bare.regions :=
    Table.mapEntries_modify ((p.get?_regions_bare name).trans same)
  exact congrArg (Parts.mk · p.bare.junctions) regions

theorem bare_setJunction (same : (p.junctions.get? name).map Junction.bare = some j.bare) :
    (p.setJunction name j).bare = p.bare := by
  have junctions : (p.setJunction name j).bare.junctions = p.bare.junctions :=
    Table.mapEntries_modify ((p.get?_junctions_bare name).trans same)
  exact congrArg (Parts.mk p.bare.regions) junctions

end

/-! ## Interfaces with their regions -/

section

variable {p p' : Parts β α} {name : String} {c c' : Coupled β α}

theorem coupled?_eq_some_iff : p.coupled? name = some c ↔ p.junctions.get? name = some c.junction ∧
    ∀ side, p.regions.get? (c.junction.geometry.region side) = some (c.region side) := by
  constructor
  · intro found
    obtain ⟨j, junction, found⟩ := Option.bind_eq_some_iff.mp found
    obtain ⟨r0, first, found⟩ := Option.bind_eq_some_iff.mp found
    obtain ⟨r1, second, same⟩ := Option.bind_eq_some_iff.mp found
    cases same
    exact ⟨junction, fun side => by cases side <;> assumption⟩
  · rintro ⟨junction, regions⟩
    refine Option.bind_eq_some_iff.mpr ⟨_, junction, ?_⟩
    refine Option.bind_eq_some_iff.mpr ⟨_, regions .first, ?_⟩
    exact Option.bind_eq_some_iff.mpr ⟨_, regions .second, rfl⟩

/-- Putting an interface and its regions back as they look. -/
theorem bare_setCoupled (found : p.coupled? name = some c) (junction : c'.junction.bare = c.junction.bare)
    (regions : ∀ side, (c'.region side).bare = (c.region side).bare) :
    (p.setCoupled name c').bare = p.bare := by
  obtain ⟨here, sides⟩ := coupled?_eq_some_iff.mp found
  have geometry := Junction.bare_eq_iff.mp junction
  have look : ∀ {p' : Parts β α} (side : Side), p'.bare = p.bare →
      (p'.regions.get? (c'.junction.geometry.region side)).map Region.bare =
        some (c'.region side).bare := fun side same => by
    obtain ⟨r', found', bare⟩ := get?_regions_of_bare_eq same (sides side)
    rw [geometry, found', Option.map_some, bare, regions side]
  have first := bare_setRegion (look .first (Eq.refl p.bare))
  have second := bare_setRegion (look .second first)
  refine (bare_setJunction ?_).trans (second.trans first)
  obtain ⟨j', found', bare⟩ := get?_junctions_of_bare_eq (second.trans first) here
  exact (congrArg (Option.map Junction.bare) found').trans (congrArg some (bare.trans junction.symm))

theorem setCoupled_eq_self (found : p.coupled? name = some c) : p.setCoupled name c = p := by
  obtain ⟨junction, regions⟩ := coupled?_eq_some_iff.mp found
  have first : p.setRegion c.junction.geometry.region0 c.region0 = p :=
    congrArg (Parts.mk · _) (Table.modify_eq_self (regions .first))
  have second : p.setRegion c.junction.geometry.region1 c.region1 = p :=
    congrArg (Parts.mk · _) (Table.modify_eq_self (regions .second))
  rw [setCoupled, first, second]
  exact congrArg (Parts.mk _) (Table.modify_eq_self junction)

theorem coupled?_of_bare_eq (same : p'.bare = p.bare) (found : p.coupled? name = some c) :
    ∃ c', p'.coupled? name = some c' ∧ c'.junction.bare = c.junction.bare ∧
      ∀ side, (c'.region side).bare = (c.region side).bare := by
  obtain ⟨junction, regions⟩ := coupled?_eq_some_iff.mp found
  obtain ⟨j', junction', bare⟩ := get?_junctions_of_bare_eq same junction
  obtain ⟨r0', first, bare0⟩ := get?_regions_of_bare_eq same (regions .first)
  obtain ⟨r1', second, bare1⟩ := get?_regions_of_bare_eq same (regions .second)
  have geometry := Junction.bare_eq_iff.mp bare
  refine ⟨⟨j', r0', r1'⟩, coupled?_eq_some_iff.mpr ⟨junction', fun side => ?_⟩, bare, fun side => ?_⟩
  · rw [geometry]
    cases side <;> assumption
  · cases side <;> assumption

end

/-! ## Steps -/

section

variable {name : String}

theorem onRegion_eq {ρ : Type} (step : Pass (Region β α) α ρ) : onRegion name step =
    Pass.onPart? (·.regions.get? name) (·.setRegion name ·) step := by
  unfold onRegion Pass.onPart?
  refine bind_congr fun s => ?_
  dsimp only
  cases s.owner.regions.get? name <;> rfl

theorem onCoupled_eq {ρ : Type} (step : Pass (Coupled β α) α ρ) : onCoupled name step =
    Pass.onPart? (·.coupled? name) (·.setCoupled name ·) step := by
  unfold onCoupled Pass.onPart?
  refine bind_congr fun s => ?_
  dsimp only
  cases s.owner.coupled? name <;> rfl

theorem claims_onRegion {step : Pass (Region β α) α Unit} {slotted : Region β α → Prop}
    {claims : Region β α → List (Nat × RowMove)} (h : Pass.Claims step slotted claims) :
    Pass.Claims (discard (onRegion name step)) (fun p => ∀ r ∈ p.regions.get? name, slotted r)
      fun p => (p.regions.get? name).toList.flatMap claims := by
  rw [onRegion_eq]
  exact h.onPart? fun p _ found => congrArg (Parts.mk · p.junctions) (Table.modify_eq_self found)

theorem claims_onCoupled {step : Pass (Coupled β α) α Unit} {slotted : Coupled β α → Prop}
    {claims : Coupled β α → List (Nat × RowMove)} (h : Pass.Claims step slotted claims) :
    Pass.Claims (discard (onCoupled name step)) (fun p => ∀ c ∈ p.coupled? name, slotted c)
      fun p => (p.coupled? name).toList.flatMap claims := by
  rw [onCoupled_eq]
  exact h.onPart? fun _ _ => setCoupled_eq_self

variable [Scalar α]

theorem later_setRegion {p : Parts β α} {r r' : Region β α} (found : p.regions.get? name = some r)
    (later : Owner.Later r r') : Owner.Later p (p.setRegion name r') where
  bare := bare_setRegion (by rw [found, Option.map_some, later.progress.bare_eq])
  sized sized := sized.setRegion (later.sized (sized.regions name r found))

theorem later_setCoupled {p : Parts β α} {c c' : Coupled β α} (found : p.coupled? name = some c)
    (later : Owner.Later c c') : Owner.Later p (p.setCoupled name c') where
  bare := bare_setCoupled found (Junction.bare_eq_iff.mpr later.geometry)
    fun side => (later.regions side).progress.bare_eq
  sized sized := by
    obtain ⟨junction, regions⟩ := coupled?_eq_some_iff.mp found
    have region : ∀ side, (c'.region side).Sized := fun side =>
      (later.regions side).sized (sized.regions _ _ (regions side))
    exact ((sized.setRegion (region .first)).setRegion (region .second)).setJunction
      (later.sized (sized.junctions _ _ junction))

theorem writes_onRegion {step : Pass (Region β α) α Unit} {post : Region β α → Records α → Prop}
    (writes : step.Writes fun _ => post)
    (stable : ∀ {r r' records}, r'.bare = r.bare → post r records → post r' records) :
    (discard (onRegion name step) : Pass (Parts β α) α Unit).Writes fun _ p records =>
      (p.regions.get? name = none ∧ records = {}) ∨
        ∃ r, p.regions.get? name = some r ∧ post r records := by
  rw [onRegion_eq]
  refine writes.onPart? later_setRegion ?_ ?_
  · intro p p' r r' records same found later holds
    obtain ⟨r'', found', bare⟩ := get?_regions_of_bare_eq same.bare found
    exact ⟨r'', found', stable (bare.trans later.progress.bare_eq.symm) holds⟩
  · intro p p' same missing
    have bare := p'.get?_regions_bare name
    rw [same.bare, get?_regions_bare, missing] at bare
    exact Option.map_eq_none_iff.mp bare.symm

theorem writes_onCoupled {step : Pass (Coupled β α) α Unit} {post : Coupled β α → Records α → Prop}
    (writes : step.Writes fun _ => post)
    (stable : ∀ {c c' records}, c'.junction.bare = c.junction.bare →
      (∀ side, (c'.region side).bare = (c.region side).bare) → post c records → post c' records) :
    (discard (onCoupled name step) : Pass (Parts β α) α Unit).Writes fun _ p records =>
      (p.coupled? name = none ∧ records = {}) ∨ ∃ c, p.coupled? name = some c ∧ post c records := by
  rw [onCoupled_eq]
  refine writes.onPart? later_setCoupled ?_ ?_
  · intro p p' c c' records same found later holds
    obtain ⟨c'', found', junction, regions⟩ := coupled?_of_bare_eq same.bare found
    refine ⟨c'', found', stable ?_ (fun side => ?_) holds⟩
    · rw [junction, Junction.bare_eq_iff, later.geometry]
    · rw [regions, (later.regions side).progress.bare_eq]
  · intro p p' same missing
    by_contra present
    obtain ⟨c', found⟩ := Option.ne_none_iff_exists'.mp present
    obtain ⟨c, found', -⟩ := coupled?_of_bare_eq same.bare.symm found
    cases missing.symm.trans found'

end

end Parts

end FiniteVolume
