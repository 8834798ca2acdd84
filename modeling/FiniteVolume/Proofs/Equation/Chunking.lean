import FiniteVolume.Proofs.Equation.Steps
import FiniteVolume.Proofs.Junction.Chunking

/-!
How vectors are divided is no matter for equations.

Under settings that differ in this only (`Settings.rechunk`), an equation is the same step, since it divides
vectors where it weighs values only (`Term.weighted_rechunk`). The step then does the same to a region or an
interface under another division (`Region.respects`, `Coupled.respects`).
-/
namespace FiniteVolume

open Pass

variable {β α : Type} [BaseScalar β]

def Settings.rechunk (c : Chunking) (settings : Settings β) : Settings β := { settings with chunking := c }

/-- Settings that are valid stay so, as long as chunks have elements. -/
theorem Settings.validate_rechunk {c : Chunking} (positive : 1 ≤ c.chunk) {settings : Settings β}
    (valid : settings.validate = .ok ()) : (settings.rechunk c).validate = .ok () := by
  have sound : settings.faults = [] := by
    unfold validate at valid
    split at valid
    · assumption
    · cases valid
  have nonzero : ¬c.chunk = 0 := by omega
  have sound' : (settings.rechunk c).faults = [] := by
    simp only [faults, List.append_eq_nil_iff] at sound ⊢
    obtain ⟨⟨⟨⟨-, severity⟩, names⟩, constants⟩, ratio⟩ := sound
    exact ⟨⟨⟨⟨if_neg nonzero, severity⟩, names⟩, constants⟩, ratio⟩
  unfold validate
  rw [sound']

def Site.rechunk (c : Chunking) (site : Site β) : Site β := { site with settings := site.settings.rechunk c }

theorem Site.mk_rechunk (c : Chunking) (settings : Settings β) (scope : Scope) :
    (⟨settings.rechunk c, scope⟩ : Site β) = Site.rechunk c ⟨settings, scope⟩ := rfl

variable [Scalar α] (c : Chunking)

/-! ## Steps under other settings -/

namespace Term

variable (site : Site β)

theorem weighted_rechunk (measure values : Field α) (name : String) :
    weighted (site.rechunk c) measure values name = weighted site measure values name := by
  unfold weighted
  rw [Field.mul_chunking (site.rechunk c).settings.chunking site.settings.chunking]
  rfl

theorem nodeDerivative_rechunk (rows : Rows) (volume : Field α) (model : String) :
    nodeDerivative (site.rechunk c) rows volume model = nodeDerivative site rows volume model := by
  funext variableName
  unfold nodeDerivative
  simp only [weighted_rechunk]
  rfl

theorem nodeCircuit_rechunk (rows : Rows) (volume : Field α) (model : String) :
    nodeCircuit (site.rechunk c) rows volume model = nodeCircuit site rows volume model := by
  funext circuit
  unfold nodeCircuit
  simp only [weighted_rechunk]
  rfl

theorem node_rechunk (rows : Rows) (circuit : Option CircuitColumn) (select : Selector) :
    (node (site.rechunk c) rows circuit select : String → RegionPass β α Unit) =
      node site rows circuit select := by
  funext model
  unfold node
  simp only [weighted_rechunk, nodeDerivative_rechunk, nodeCircuit_rechunk]
  rfl

theorem fluxDerivative_rechunk (rows : Rows) (measure : Field α) (f : Flux) :
    fluxDerivative (site.rechunk c) rows measure f = fluxDerivative site rows measure f := by
  funext variableName
  unfold fluxDerivative
  simp only [weighted_rechunk]
  rfl

theorem fluxCircuit_rechunk (rows : Rows) (measure : Field α) (f : Flux) :
    fluxCircuit (site.rechunk c) rows measure f = fluxCircuit site rows measure f := by
  funext circuit
  unfold fluxCircuit
  simp only [weighted_rechunk]
  rfl

theorem flux_rechunk (rows : Rows) (circuit : Option CircuitColumn) (select : Selector) :
    (flux (site.rechunk c) rows circuit select : Flux → RegionPass β α Unit) =
      flux site rows circuit select := by
  funext f
  unfold flux
  simp only [weighted_rechunk, fluxDerivative_rechunk, fluxCircuit_rechunk]
  rfl

theorem nodeIntegral_rechunk (mask : Array Bool) :
    (nodeIntegral (site.rechunk c) mask : String → RegionPass β α α) = nodeIntegral site mask := by
  funext model
  unfold nodeIntegral
  simp only [weighted_rechunk]
  rfl

theorem fluxIntegral_rechunk (mask : Array Bool) :
    (fluxIntegral (site.rechunk c) mask : Flux → RegionPass β α α) = fluxIntegral site mask := by
  funext f
  unfold fluxIntegral
  simp only [weighted_rechunk]
  rfl

end Term

theorem BulkEquation.steady_rechunk (e : BulkEquation β) (site : Site β) (rows : Rows)
    (select : Selector) : (e.steady (site.rechunk c) rows select : RegionPass β α Unit) =
      e.steady site rows select := by
  unfold steady
  simp only [Term.node_rechunk, Term.flux_rechunk]
  rfl

theorem BulkEquation.assemble_rechunk (e : BulkEquation β) (settings : Settings β) (select : Selector)
    (time : TimeMode) : (e.assemble (settings.rechunk c) select time : RegionPass β α Unit) =
      e.assemble settings select time := by
  unfold assemble
  simp only [Site.mk_rechunk, BulkEquation.steady_rechunk, Term.node_rechunk]

theorem BulkEquation.update_rechunk [Precision β α] (e : BulkEquation β) (settings : UpdateSettings β)
    (raw : Array α) {r : Region β α} (neutral : r.Neutral) (log : Log) :
    e.update settings raw (r.rechunk c) log =
      Prod.map id (Prod.map (Region.rechunk c) id) (e.update settings raw r log) := by
  have read := (Region.respects_read c .node e.variableName r neutral).1
  unfold update
  rw [read, show e.scope (r.rechunk c) = e.scope r from rfl]
  rcases Region.read .node e.variableName r with ⟨cause | old, r'⟩
  · rfl
  dsimp only
  rcases UpdateSite.apply ⟨e.policy, settings, e.variableName, e.scope r⟩ old.toArray raw log
    with ⟨fault | stats, values, log'⟩
  · rfl
  · dsimp only [Region.setValues]
    rw [Region.setData_rechunk]
    cases r'.setData .node e.variableName (.vector values) <;> rfl

theorem CircuitModels.intoCircuit_rechunk (m : CircuitModels) (site : Site β) (mask : Array Bool)
    (circuit : CircuitColumn) (select : Selector) :
    (m.intoCircuit (site.rechunk c) mask circuit select : RegionPass β α Unit) =
      m.intoCircuit site mask circuit select := by
  unfold intoCircuit
  simp only [Term.node_rechunk, Term.flux_rechunk]
  rfl

theorem CircuitModels.integral_rechunk (m : CircuitModels) (site : Site β) (mask : Array Bool) :
    (m.integral (site.rechunk c) mask : RegionPass β α α) = m.integral site mask := by
  unfold integral
  simp only [Term.nodeIntegral_rechunk, Term.fluxIntegral_rechunk]
  rfl

namespace ContactEquation

variable (e : ContactEquation β) (mask : Array Bool) (settings : Settings β)

theorem steady_rechunk (site : Site β) (start : Nat) (circuit : Option CircuitColumn) (select : Selector) :
    (e.steady (site.rechunk c) start mask circuit select : RegionPass β α Unit) =
      e.steady site start mask circuit select := by
  unfold steady
  simp only [Term.node_rechunk, Term.flux_rechunk, CircuitModels.intoCircuit_rechunk]
  rfl

theorem assemble_rechunk (circuit : Circuit β) (select : Selector) (time : TimeMode) :
    (e.assemble mask circuit (settings.rechunk c) select time : RegionPass β α Unit) =
      e.assemble mask circuit settings select time := by
  unfold assemble
  simp only [Site.mk_rechunk, steady_rechunk, CircuitModels.intoCircuit_rechunk]

theorem integrate_rechunk [Precision β α] :
    (e.integrate mask (settings.rechunk c) : RegionPass β α _) = e.integrate mask settings := by
  unfold integrate
  simp only [Site.mk_rechunk, CircuitModels.integral_rechunk]

end ContactEquation

/-- An interface equation weighs no fields. -/
theorem InterfaceEquation.assemble_rechunk (e : InterfaceEquation) (mask : Array Bool)
    (settings : Settings β) (select : Selector) (time : TimeMode) :
    (e.assemble mask (settings.rechunk c) select time : CoupledPass β α Unit) =
      e.assemble mask settings select time := rfl

/-! ## Steps on what is divided otherwise -/

section

variable {settings : Settings β} {may : Effect → Prop} {ρ : Type}

theorem Region.ReadsModel.mirrors {a : RegionPass β α ρ} (reads : ReadsModel ρ a) :
    Mirrors (rechunk c) Neutral a := by
  cases reads with
  | fetch site d name =>
    intro s neutral
    obtain ⟨same, kept⟩ := respects_read c d name s.owner neutral
    unfold Term.fetch
    dsimp only [image]
    rw [same]
    exact ⟨rfl, kept⟩

theorem Region.mirrors {a : RegionPass β α ρ} (composed : Composed (Region.rules settings) may a) :
    Mirrors (rechunk c) Neutral a :=
  have alike : ∀ r : Region β α, Resembles r (r.rechunk c) := fun _ => ⟨c, rfl⟩
  composed.mirrors alike fun _ _ => ReadsModel.mirrors c

theorem Coupled.ReadsModel.mirrors {a : CoupledPass β α ρ} (reads : ReadsModel settings ρ a) :
    Mirrors (recast c (Region.rechunk c)) (NeutralWith Region.Neutral) a := by
  cases reads with
  | read site name =>
    intro s neutral
    obtain ⟨same, kept⟩ := respects_read (c := c) (Region.answersAlike_rechunk c) name s.owner neutral
    unfold InterfaceEquation.read
    dsimp only [image]
    rw [same]
    refine ⟨rfl, fun side => ?_, kept.interface⟩
    have region := kept.regions side
    cases side <;> exact region
  | onRegion side composed =>
    exact (Region.mirrors c composed).onPart (fun _ => region_recast side)
      (fun _ => setRegion_recast side) (fun _ neutral => neutral.regions side)
      fun _ _ neutral => neutral.setRegion

theorem Coupled.mirrors {a : CoupledPass β α ρ} (composed : Composed (Coupled.rules settings) may a) :
    Mirrors (recast c (Region.rechunk c)) (NeutralWith Region.Neutral) a :=
  have alike : ∀ p : Coupled β α, Alike p (p.recast c (Region.rechunk c)) := fun _ =>
    ⟨rfl, rfl, rfl, fun side => ⟨c, congrArg Region.uncached (region_recast side)⟩⟩
  composed.mirrors alike fun _ _ => ReadsModel.mirrors c

end

end FiniteVolume
