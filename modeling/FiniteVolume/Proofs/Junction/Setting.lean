import FiniteVolume.Proofs.Device.Revisions
import FiniteVolume.Proofs.Junction.Coherence

/-!
An interface that is read against changing pairs of regions.

A setting holds the models of one interface and all regions that it may be read against, every one with
a number of its own. Regions change by calls that the interface is not told of, and any two of them may
be handed to a read. After every history the interface is coherent with what the two regions of the last
read answered then (`Setting.Reached.coherent`), and these have not changed for a reader since unless
their revision has (`Region.Precedes`). The next read notices what has changed, and begins with what its
two regions answer (`Setting.Coherent.underway`).
-/
namespace FiniteVolume

variable {β α : Type} [BaseScalar β] [Scalar α] [Precision β α]

/-! ## Calls on regions -/

/-- What becomes of a region by calls on it, and by calls on devices that hold it. Devices give it rows,
read it in the course of a pass, and set its parameters and variables. -/
inductive Region.Evolves (r : Region β α) : Region β α → Prop
  | refl : Evolves r r
  | call {r' : Region β α} (evolves : Evolves r r') (change : Region.Change β α) :
    Evolves r (change.apply r')
  | rows {r' : Region β α} (evolves : Evolves r r') (base : Nat) : Evolves r { r' with base }
  | reads {r' r'' : Region β α} (evolves : Evolves r r') (leads : Region.Leads r' r'') : Evolves r r''
  | circuit {r' r'' : Region β α} (evolves : Evolves r r') {d : Device β α} {key : String}
    (held : d.parts.regions.get? key = some r') (name : String) (value : β)
    (left : (d.setCircuitValue name value).parts.regions.get? key = some r'') : Evolves r r''
  | update {r' r'' : Region β α} (evolves : Evolves r r') {d : Device β α} {key : String}
    (held : d.parts.regions.get? key = some r') (solution : Array α)
    (left : (d.update solution).2.parts.regions.get? key = some r'') : Evolves r r''

theorem Region.Evolves.continues {r r' : Region β α} (evolves : r.Evolves r') : r.Continues r' := by
  have later : ∀ {p p' : Parts β α} {key : String} {r r' : Region β α}, p.Continues p' →
      p.regions.get? key = some r → p'.regions.get? key = some r' → r.Continues r' := by
    intro p p' key r r' continues held left
    obtain ⟨r'', left', later⟩ := continues key r held
    rwa [Option.some.inj (left.symm.trans left')]
  induction evolves with
  | refl => exact .refl r
  | call _ change ih => exact ih.trans (.change _ change)
  | rows _ base ih => exact ih.trans (.rows _ base)
  | reads _ leads ih => exact ih.trans (.of_leads leads)
  | circuit _ held name value left ih =>
    exact ih.trans (later (Device.continues_setCircuitValue _ name value) held left)
  | update _ held solution left ih =>
    exact ih.trans (later (Device.continues_update _ solution) held left)

/-! ## Histories -/

/-- The models of an interface and the regions that it may be read against, by number. -/
structure Setting (β α : Type) where
  junction : Junction β α
  regions : Nat → Region β α

namespace Setting

def setRegion (s : Setting β α) (i : Nat) (r : Region β α) : Setting β α :=
  { s with regions := fun k => if k = i then r else s.regions k }

/-- The interface with the two regions that are handed to a read. -/
def coupled (s : Setting β α) (i k : Nat) : Coupled β α := ⟨s.junction, s.regions i, s.regions k⟩

def put (s : Setting β α) (i k : Nat) (c : Coupled β α) : Setting β α :=
  ({ s with junction := c.junction }.setRegion i c.region0).setRegion k c.region1

inductive Step (s : Setting β α) : Setting β α → Prop
  | declare (name : String) (functions : Registry α) (e : Expr β) :
    Step s { s with junction := s.junction.declare name (.ofExpr functions e) }
  | setValues {name : String} {values : Array α} {j : Junction β α}
    (wrote : s.junction.setValues name values = .ok j) : Step s { s with junction := j }
  | setUniform (name : String) (value : α) :
    Step s { s with junction := s.junction.setUniform name value }
  | removeModel (name : String) : Step s { s with junction := s.junction.removeModel name }
  | markOld (name : String) : Step s { s with junction := s.junction.markOld name }
  | takeNotes : Step s { s with junction := s.junction.takeNotes.2 }
  | region (i : Nat) {r : Region β α} (evolves : (s.regions i).Evolves r) : Step s (s.setRegion i r)
  | read (i k : Nat) (apart : i ≠ k) (name : String) :
    Step s (s.put i k ((s.coupled i k).read name).2)
  | find (i k : Nat) (apart : i ≠ k) (name : String) :
    Step s (s.put i k ((s.coupled i k).find name).2)

/-- An interface without models, and regions that are new. -/
structure Fresh (s : Setting β α) : Prop where
  models : s.junction.models = {}
  seen : s.junction.seen = none
  regions : ∀ i, ∃ device name mesh chunking,
    s.regions i = Region.create i device name mesh chunking

/-- The setting results from a fresh one by calls. -/
inductive Reached : Setting β α → Prop
  | fresh {s : Setting β α} (fresh : s.Fresh) : Reached s
  | step {s s' : Setting β α} (reached : Reached s) (step : Step s s') : Reached s'

/-! ## What was seen -/

variable {s s' : Setting β α} {i k : Nat} {name : String}

def Past (s : Setting β α) (r : Region β α) : Prop := Region.Precedes r (s.regions r.instanceId)

/-- The regions are between two calls, and the interface is coherent with what two earlier regions
answer, the ones that it was read against last. -/
structure Coherent (s : Setting β α) : Prop where
  settled : ∀ i, (s.regions i).Settled
  numbered : ∀ i, (s.regions i).instanceId = i
  noticed : ∃ r0 r1 : Region β α, s.Past r0 ∧ s.Past r1 ∧
    s.junction.Coherent (Coupled.mk s.junction r0 r1).outside ∧
    ∀ now, s.junction.seen = some now → now = (r0.fingerprint, r1.fingerprint)

omit [BaseScalar β] [Scalar α] [Precision β α] in
theorem regions_setRegion (r : Region β α) (n : Nat) :
    (s.setRegion i r).regions n = if n = i then r else s.regions n := rfl

omit [BaseScalar β] [Precision β α] in
theorem Past.setRegion {r r' : Region β α} (past : s.Past r)
    (later : Region.Precedes (s.regions i) r') : (s.setRegion i r').Past r := by
  unfold Past
  rw [regions_setRegion]
  split
  next same =>
    rw [Past, same] at past
    exact past.trans later
  · exact past

namespace Coherent

variable (coherent : s.Coherent)

include coherent

theorem junction {j : Junction β α} (geometry : j.geometry = s.junction.geometry)
    (chunking : j.chunking = s.junction.chunking) (seen : j.seen = s.junction.seen)
    (keeps : ∀ o, s.junction.Coherent o → j.Coherent o) : { s with junction := j }.Coherent where
  settled := coherent.settled
  numbered := coherent.numbered
  noticed := by
    obtain ⟨r0, r1, past0, past1, current, noticed⟩ := coherent.noticed
    refine ⟨r0, r1, past0, past1, ?_, seen ▸ noticed⟩
    have same : (Coupled.mk j r0 r1).outside = (Coupled.mk s.junction r0 r1).outside :=
      Coupled.outside_of_still geometry chunking fun side => by cases side <;> exact .refl _
    rw [same]
    exact keeps _ current

theorem region {r : Region β α} (evolves : (s.regions i).Evolves r) :
    (s.setRegion i r).Coherent := by
  obtain ⟨later, settled⟩ := evolves.continues (coherent.settled i)
  refine ⟨fun n => ?_, fun n => ?_, ?_⟩
  · rw [regions_setRegion]
    split
    · exact settled
    · exact coherent.settled n
  · rw [regions_setRegion]
    split
    next same => rw [later.instanceId, coherent.numbered, same]
    · exact coherent.numbered n
  · obtain ⟨r0, r1, past0, past1, noticed⟩ := coherent.noticed
    exact ⟨r0, r1, past0.setRegion later, past1.setRegion later, noticed⟩

/-- A region that has the fingerprint of an earlier one, perhaps by later calls, stands still. -/
theorem still_of_fingerprint {r r' : Region β α} {n : Nat} (past : s.Past r)
    (later : Region.Precedes (s.regions n) r') (same : r'.fingerprint = r.fingerprint) :
    Region.Still r (s.regions n) ∧ Region.Still (s.regions n) r' := by
  obtain ⟨instanceId, revision⟩ := Fingerprint.mk.inj same
  have number : r.instanceId = n :=
    instanceId.symm.trans (later.instanceId.trans (coherent.numbered n))
  rw [Past, number] at past
  have low := past.revision
  have high := later.revision
  exact ⟨past.still (by omega), later.still (by omega)⟩

/-- Where the fingerprints are those that were seen, the regions answer as they did; where they are
not, everything read through them is marked. -/
theorem refresh (i k : Nat) :
    (s.coupled i k).refresh.junction.Coherent (s.coupled i k).outside := by
  obtain ⟨r0, r1, past0, past1, current, noticed⟩ := coherent.noticed
  by_cases seen : s.junction.seen = some (s.coupled i k).fingerprints
  · rw [Coupled.refresh_of_seen seen]
    obtain ⟨same0, same1⟩ := Prod.mk.inj (noticed _ seen)
    have same : (s.coupled i k).outside = (Coupled.mk s.junction r0 r1).outside :=
      Coupled.outside_of_still rfl rfl fun side => by
        cases side
        · exact (coherent.still_of_fingerprint past0 (.refl _) same0).1
        · exact (coherent.still_of_fingerprint past1 (.refl _) same1).1
    rw [same]
    exact current
  · exact current.refresh seen

theorem underway (i k : Nat) : Coupled.Underway (s.coupled i k).refresh.junction
    (s.coupled i k).outside (fun _ => False) (s.coupled i k).refresh := by
  refine Coupled.underway_of_coherent (coherent.refresh i k) rfl (Coupled.outside_refresh _) ?_
  intro side
  cases side <;> exact coherent.settled _

theorem put (apart : i ≠ k) {c : Coupled β α} (kept : Coupled.Kept (s.coupled i k).refresh c)
    (underway : Coupled.Underway (s.coupled i k).refresh.junction (s.coupled i k).outside
      (fun _ => False) c) : (s.put i k c).Coherent := by
  -- Reads keep the numbers of regions, so that both go back where they were taken from.
  have instanceId (side : Side) :
      (c.region side).instanceId = ((s.coupled i k).refresh.region side).instanceId :=
    Region.eq_of_uncached_eq (f := Region.instanceId) (fun _ => rfl)
      (kept.regions side).progress.declared
  have number0 : c.region0.instanceId = i := (instanceId .first).trans (coherent.numbered i)
  have number1 : c.region1.instanceId = k := (instanceId .second).trans (coherent.numbered k)
  have region : ∀ n, (s.put i k c).regions n =
      if n = k then c.region1 else if n = i then c.region0 else s.regions n := fun _ => rfl
  refine ⟨fun n => ?_, fun n => ?_, c.region0, c.region1, ?_, ?_, ?_, ?_⟩
  · rw [region]
    split
    · exact underway.settled .second
    · split
      · exact underway.settled .first
      · exact coherent.settled n
  · rw [region]
    split
    next same => rw [number1, same]
    · split
      next same => rw [number0, same]
      · exact coherent.numbered n
  · rw [Past, number0, region, if_neg apart, if_pos rfl]
    exact .refl _
  · rw [Past, number1, region, if_pos rfl]
    exact .refl _
  · have current := underway.coherent (coherent.refresh i k)
    rw [← underway.outside] at current
    exact current
  · intro now seen
    have same : c.junction.seen = some c.fingerprints := by
      rw [kept.seen, Coupled.seen_refresh, kept.fingerprints_eq]
    exact (Option.some.inj (same.symm.trans seen)).symm

theorem step (step : Step s s') : s'.Coherent := by
  cases step with
  | declare name functions e =>
    exact coherent.junction rfl rfl rfl fun _ current => current.declare functions e
  | setValues wrote =>
    unfold Junction.setValues at wrote
    split at wrote
    · cases wrote
    next fits =>
      cases wrote
      exact coherent.junction rfl rfl rfl fun _ current =>
        current.write (by simpa [Field.size] using fits)
  | setUniform name value => exact coherent.junction rfl rfl rfl fun _ current => current.write rfl
  | removeModel name => exact coherent.junction rfl rfl rfl fun _ current => current.removeModel
  | markOld name => exact coherent.junction rfl rfl rfl fun _ current => current.markOld
  | takeNotes => exact coherent.junction rfl rfl rfl fun _ current => current.congr rfl rfl
  | region i evolves => exact coherent.region evolves
  | read i k apart name =>
    exact coherent.put apart (Coupled.readWithin_kept _ name _).1 ((coherent.underway i k).read _ name)
  | find i k apart name =>
    have underway := coherent.underway i k
    exact coherent.put apart
      (Coupled.kept_lookupWith (fun name c => (Coupled.readWithin_kept _ name c).1) name _)
      (underway.lookup _ name)

end Coherent

theorem coherent_of_fresh (fresh : s.Fresh) : s.Coherent where
  settled i := by
    obtain ⟨device, name, mesh, chunking, made⟩ := fresh.regions i
    rw [made]
    exact .create i device name mesh chunking
  numbered i := by
    obtain ⟨device, name, mesh, chunking, made⟩ := fresh.regions i
    rw [made]
    rfl
  noticed := by
    have missing : ∀ {d name m}, s.junction.models.get? d name ≠ some m := by
      intro d name m found
      rw [fresh.models] at found
      cases found
    have past : s.Past (s.regions 0) := by
      obtain ⟨device, name, mesh, chunking, made⟩ := fresh.regions 0
      unfold Past
      rw [show (s.regions 0).instanceId = 0 by rw [made]; rfl]
      exact .refl _
    refine ⟨s.regions 0, s.regions 0, past, past, ?_, fun now seen => ?_⟩
    · refine ⟨fun found => absurd found missing, fun found => absurd found missing, ?_,
        fun found => absurd found missing, fun found => absurd found missing⟩
      rw [fresh.models]
      exact Dependencies.mirrored_empty
    · rw [fresh.seen] at seen
      cases seen

theorem Reached.coherent (reached : s.Reached) : s.Coherent := by
  induction reached with
  | fresh fresh => exact coherent_of_fresh fresh
  | step _ step ih => exact ih.step step

end Setting

end FiniteVolume
