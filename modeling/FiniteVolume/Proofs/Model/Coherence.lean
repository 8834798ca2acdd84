import FiniteVolume.Numeric.Instances
import FiniteVolume.Proofs.Model.Edit

/-!
Histories in which fresh models stay current.

Every call keeps a region coherent, as long as no contact is replaced from which something is cached,
a name stands for models of one domain only and no expression reads an edge model in place of a corner
(`Considerate.coherent`). After such a history reads return what a recomputation from the declarations
gives.
-/
namespace FiniteVolume

variable {β α : Type} [BaseScalar β] [Scalar α] [Precision β α]

namespace Region

variable {r r' : Region β α} {d : Domain} {name : String} {m : Model β α}
  {used : Domain → String → Prop}

/-! ## Calls -/

namespace Coherent

theorem of_alike (coherent : Coherent used r) (alike : Alike r r') : Coherent used r' := by
  refine (Edit.of_display (coherent.toSettled.of_alike alike) alike.mesh alike.chunking
    alike.parameters alike.contacts (by rw [alike.models])
    (by rw [alike.models]) ?_).keeps coherent
  intro d name m' found'
  exact ⟨m', alike.models ▸ found', rfl⟩

theorem setDisplay (coherent : Coherent used r) {display : DisplayType} :
    Coherent used (r.setDisplay d name display) := by
  refine (Edit.of_display (r := r) coherent.toSettled.setDisplay rfl rfl rfl rfl rfl
    (ModelStore.contains_setDisplay display) ?_).keeps coherent
  intro d' name' m' found'
  rw [Region.setDisplay, ModelStore.get?_setDisplay] at found'
  split at found'
  · obtain ⟨m, found, rfl⟩ := Option.map_eq_some_iff.mp found'
    exact ⟨m, found, rfl⟩
  · exact ⟨m', found', rfl⟩

/-- A contact may be attached or replaced as long as nothing is cached that was computed from it. -/
theorem addContact (coherent : Coherent used r) {contact : Contact}
    (unread : r.Unread contact.name) : Coherent used (r.addContact contact) :=
  (Edit.of_contact (coherent.toSettled.addContact contact) unread).keeps coherent

theorem markOld (coherent : Coherent used r) :
    Coherent used { r with models := r.models.markOld name } :=
  (Edit.of_markOld (r := r) rfl coherent.toSettled.markOld rfl rfl (fun _ _ => rfl) rfl).keeps
    coherent

theorem setParameter (coherent : Coherent used r) (value : β) :
    Coherent used (r.setParameter name value) := by
  refine (Edit.of_markOld (r := r) (x := name) rfl (coherent.toSettled.setParameter value) rfl rfl
    (fun other distinct => ?_) rfl).keeps coherent
  rw [Region.setParameter, touch, parameter?, Table.get?_insert, if_neg distinct, parameter?]

variable (single : ∀ d d' name, used d name → used d' name → d = d')

include single

theorem write (coherent : Coherent used r) (inUse : used d name) {data : Field α}
    (fits : data.size = r.size d) : Coherent used { r with models := r.models.write d name data } :=
  (Edit.of_replaced coherent single (ModelStore.replaced_write coherent.mirrored data)
    (coherent.toSettled.write fits) rfl rfl rfl rfl inUse
    fun m calculator new computed => by cases new; cases computed).keeps coherent

theorem declareModel (coherent : Coherent used r) (inUse : used d name) (functions : Registry α)
    {e : Expr β} (plain : Plain used e) {contact : Option String}
    (attached : ∀ name, contact = some name → r.contacts.contains name = true) :
    Coherent used { r with models := r.models.declare d name (.ofExpr functions e) contact } := by
  refine (Edit.of_replaced coherent single (ModelStore.replaced_declare coherent.mirrored _ contact)
    (coherent.toSettled.declareModel functions e attached) rfl rfl rfl rfl inUse ?_).keeps coherent
  intro m calculator new computed
  cases new
  cases computed
  exact ⟨by simp, functions, e, rfl, plain⟩

theorem removeModel (coherent : Coherent used r) (present : r.models.contains d name = true) :
    Coherent used { r with models := r.models.remove d name } := by
  obtain ⟨m, found⟩ := ModelStore.contains_iff.mp present
  have replaced := ModelStore.replaced_remove coherent.mirrored present
  have settled : { r with models := r.models.remove d name }.Settled :=
    coherent.toSettled.replaced replaced rfl rfl (by simp)
  exact (Edit.of_replaced coherent single replaced settled rfl rfl rfl rfl (coherent.known found)
    (by simp)).keeps coherent

end Coherent

/-! ## Histories -/

/-- The call keeps to the names in use, reads no edge model in place of a corner, and replaces no
contact. -/
structure Change.Allowed (used : Domain → String → Prop) (r : Region β α) (change : Change β α) :
    Prop where
  known : ∀ d name, (change.apply r).models.contains d name = true → used d name
  plain : ∀ e, change.expression? = some e → Plain used e
  contact : ∀ name, change.contact? = some name → r.contacts.contains name = false

theorem Coherent.apply (coherent : Coherent used r)
    (single : ∀ d d' name, used d name → used d' name → d = d') (change : Change β α)
    (allowed : change.Allowed used r) : Coherent used (change.apply r) := by
  obtain ⟨r₀, r₁, consulted, effect, alike⟩ := change.apply_cases r
  have start : Coherent used r₀ := coherent.consulted consulted
  have known : ∀ d name, r₁.models.contains d name = true → used d name := by
    rw [← alike.models]
    exact allowed.known
  refine Coherent.of_alike ?_ alike
  cases effect with
  | none => exact start
  | write d name data _ fits =>
    exact start.write single (known d name (ModelStore.contains_write.mpr (.inl rfl))) fits
  | declare d name functions e contact _ expressed attached =>
    have inUse := known d name (ModelStore.contains_declare.mpr (.inl rfl))
    exact start.declareModel single inUse functions (allowed.plain e expressed) attached
  | remove d name present => exact start.removeModel single present
  | display d name display => exact start.setDisplay
  | markOld name => exact start.markOld
  | parameter name value => exact start.setParameter value
  | contact contact attached =>
    have new := allowed.contact contact.name attached
    rw [← contacts_of_uncached_eq consulted.declared] at new
    exact start.addContact (start.toSettled.unread new)

/-- A history that attaches and replaces contacts only while nothing is cached that was computed from
them. -/
def ReplacesUnread : Region β α → List (Change β α) → Prop
  | _, [] => True
  | r, change :: rest =>
    (∀ contact, change = .addContact contact → r.Unread contact.name) ∧
      ReplacesUnread (change.apply r) rest

theorem ReplacesUnread.before {before after : List (Change β α)}
    (unread : ReplacesUnread r (before ++ after)) : ReplacesUnread r before := by
  induction before generalizing r with
  | nil => trivial
  | cons change rest ih => exact ⟨unread.1, ih unread.2⟩

theorem Settled.replacesUnread (settled : r.Settled) {changes : List (Change β α)}
    (new : ∀ name ∈ changes.filterMap Change.contact?, r.contacts.contains name = false)
    (distinct : (changes.filterMap Change.contact?).Nodup) : r.ReplacesUnread changes := by
  induction changes generalizing r with
  | nil => trivial
  | cons change rest ih =>
    refine ⟨?_, ih (settled.apply change) (fun name later => ?_) ?_⟩
    · rintro contact rfl
      exact settled.unread (new _ (List.mem_filterMap.mpr ⟨_, List.mem_cons_self, rfl⟩))
    · refine Bool.eq_false_iff.mpr fun present => ?_
      rcases Change.contains_contacts_apply present with attached | before
      · rw [List.filterMap_cons, attached] at distinct
        exact (List.nodup_cons.mp distinct).1 later
      · have absent := new name (by
          rw [List.filterMap_cons]
          split
          · exact later
          · exact List.mem_cons_of_mem _ later)
        rw [before] at absent
        cases absent
    · rw [List.filterMap_cons] at distinct
      split at distinct
      · exact distinct
      · exact (List.nodup_cons.mp distinct).2

theorem Coherent.apply_unread (coherent : Coherent used r)
    (single : ∀ d d' name, used d name → used d' name → d = d') {change : Change β α}
    (known : ∀ d name, (change.apply r).models.contains d name = true → used d name)
    (plain : ∀ e, change.expression? = some e → Plain used e)
    (unread : ∀ contact, change = .addContact contact → r.Unread contact.name) :
    Coherent used (change.apply r) := by
  cases change with
  | addContact contact => exact coherent.addContact (unread contact rfl)
  | _ => exact coherent.apply single _ ⟨known, plain, fun _ attached => by cases attached⟩

/-- A history with the names in use, no expression that reads an edge model in use in place of a
corner, and no replacement of a contact from which something is cached keeps the invariant. -/
theorem Coherent.run (coherent : Coherent used r)
    (single : ∀ d d' name, used d name → used d' name → d = d') {changes : List (Change β α)}
    (known : ∀ d name, r.Occurs changes d name → used d name)
    (plain : ∀ change ∈ changes, ∀ e, change.expression? = some e → Plain used e)
    (unread : r.ReplacesUnread changes) : Coherent used (r.run changes) := by
  -- The names in use are those of the whole history and stay fixed.
  induction changes generalizing r with
  | nil => exact coherent
  | cons change rest ih =>
    obtain ⟨plainHere, plainLater⟩ := List.forall_mem_cons.mp plain
    refine ih (coherent.apply_unread single (fun d name present => ?_) plainHere unread.1) ?_
      plainLater unread.2
    · exact known d name ⟨[change], ⟨rest, rfl⟩, present⟩
    · rintro d name ⟨past, before, present⟩
      exact known d name ⟨change :: past, List.cons_prefix_cons.mpr ⟨rfl, before⟩, present⟩

theorem Coherent.create (single : ∀ d d' name, used d name → used d' name → d = d')
    (coordinates : ∀ a ∈ Axis.all, used .node a.text) (instanceId : Nat) (device name : String)
    (mesh : Mesh β) (chunking : Chunking) :
    Coherent used (Region.create instanceId device name mesh chunking : Region β α) := by
  refine create_induction ⟨⟨fun d name m found => ?_, Dependencies.mirrored_empty⟩, fun found => ?_,
    fun found => ?_, fun found => ?_, fun d name m found => ?_⟩
    fun r a data coherent member fits => coherent.write single (coordinates a member) fits
  all_goals cases found

/-- A history in which every name is used on one domain only, no contact is replaced, and no
expression refers to a corner `m@enK` of element edges while there is an edge model `m@nK` at some
point. -/
structure Tame (r : Region β α) (changes : List (Change β α)) : Prop where
  single : ∀ d d' name, r.Occurs changes d name → r.Occurs changes d' name → d = d'
  distinct : (changes.filterMap Change.contact?).Nodup
  corners : ∀ change ∈ changes, ∀ e, change.expression? = some e → ∀ base corner side,
    side.index = corner.val → .model ((Suffix.elementCorner corner).apply base) ∈ e.leaves →
      ¬r.Occurs changes .edge ((Suffix.edgeEnd side).apply base)

/-- A history in which every name is used on one domain only, no expression refers to a corner `m@enK`
of element edges while there is an edge model `m@nK` at some point, and contacts are replaced only while
nothing is cached that was computed from them. -/
structure Considerate (r : Region β α) (changes : List (Change β α)) : Prop where
  single : ∀ d d' name, r.Occurs changes d name → r.Occurs changes d' name → d = d'
  corners : ∀ change ∈ changes, ∀ e, change.expression? = some e → ∀ base corner side,
    side.index = corner.val → .model ((Suffix.elementCorner corner).apply base) ∈ e.leaves →
      ¬r.Occurs changes .edge ((Suffix.edgeEnd side).apply base)
  unread : r.ReplacesUnread changes

theorem Considerate.coherent {instanceId : Nat} {device name : String} {mesh : Mesh β}
    {chunking : Chunking} {before after : List (Change β α)}
    (considerate : (create instanceId device name mesh chunking).Considerate (before ++ after)) :
    Coherent ((create instanceId device name mesh chunking : Region β α).Occurs (before ++ after))
      ((create instanceId device name mesh chunking : Region β α).run before) := by
  refine (Coherent.create considerate.single ?_ instanceId device name mesh chunking).run
    considerate.single ?_ ?_ considerate.unread.before
  · exact fun a member => ⟨[], List.nil_prefix, contains_create.mpr ⟨a, member, rfl⟩⟩
  · rintro d name ⟨past, early, present⟩
    exact ⟨past, early.trans (List.prefix_append before after), present⟩
  · rintro change member e declared y leaf _ ⟨base, corner, side, split, index, rfl⟩
    rw [← Suffix.apply_of_split? split] at leaf
    exact considerate.corners change (List.mem_append_left _ member) e declared base corner side
      index leaf

/-- In every region between two calls of a tame history, fresh models are current. -/
theorem coherent_during_run (instanceId : Nat) (device name : String) (mesh : Mesh β)
    (chunking : Chunking) (before after : List (Change β α))
    (tame : (create instanceId device name mesh chunking).Tame (before ++ after)) :
    Coherent ((create instanceId device name mesh chunking : Region β α).Occurs (before ++ after))
      ((create instanceId device name mesh chunking : Region β α).run before) :=
  Considerate.coherent ⟨tame.single, tame.corners,
    (Settled.create ..).replacesUnread (fun _ _ => rfl) tame.distinct⟩

/-! ## Tame histories -/

/-- The models that a history of a new region may bring in, the coordinates included. -/
def inUse (changes : List (Change β α)) : List (Domain × String) :=
  Axis.all.map (fun a => (.node, a.text)) ++ changes.flatMap Change.introduces

theorem mem_inUse_of_occurs {instanceId : Nat} {device region : String} {mesh : Mesh β}
    {chunking : Chunking} {changes : List (Change β α)}
    (occurs : (create instanceId device region mesh chunking).Occurs changes d name) :
    (d, name) ∈ inUse changes := by
  rcases occurs.introduced with introduced | present
  · exact List.mem_append_right _ introduced
  · obtain ⟨a, member, same⟩ := contains_create.mp present
    exact List.mem_append_left _ (List.mem_map.mpr ⟨a, member, same.symm⟩)

/-- A history is tame if no two models that it may bring in share their name, and none of them is an
end of edges whose element edges it asks for. -/
theorem tame_of_inUse {instanceId : Nat} {device region : String} {mesh : Mesh β}
    {chunking : Chunking} {changes : List (Change β α)}
    (single : ∀ key ∈ inUse changes, ∀ key' ∈ inUse changes, key.2 = key'.2 → key.1 = key'.1)
    (distinct : (changes.filterMap Change.contact?).Nodup)
    (corners : ∀ change ∈ changes, ∀ e, change.expression? = some e → ∀ base corner side,
      side.index = corner.val → .model ((Suffix.elementCorner corner).apply base) ∈ e.leaves →
        (.edge, (Suffix.edgeEnd side).apply base) ∉ inUse changes) :
    (create instanceId device region mesh chunking).Tame changes := by
  refine ⟨fun d d' name occurs occurs' => ?_, distinct, ?_⟩
  · exact single _ (mem_inUse_of_occurs occurs) _ (mem_inUse_of_occurs occurs') rfl
  · intro change member e declared base corner side index leaf occurs
    exact corners change member e declared base corner side index leaf (mem_inUse_of_occurs occurs)

/-! ## Reads -/

/-- Two results are the same, or both report a cycle. At which model a cycle is met depends on what
is cached. -/
def SameUnlessCyclic {ρ : Type} (result result' : Except ModelError ρ) : Prop :=
  result = result' ∨ ((cycleOf result).isSome = true ∧ (cycleOf result').isSome = true)

theorem Coherent.read_same (coherent : Coherent used r) (d : Domain) (name : String) :
    SameUnlessCyclic (r.read d name).1 (r.uncached.read d name).1 := by
  have same : ∀ {result}, cycleOf result = none →
      ((r.uncached.read d name).1 = result ↔ (r.read d name).1 = result) := fun acyclic => by
    rw [coherent.toSettled.uncached.read_eq_iff acyclic, coherent.toSettled.read_eq_iff acyclic,
      coherent.current.yields_uncached_iff]
  cases cycle : cycleOf (r.read d name).1 with
  | none => exact .inl ((same cycle).mpr rfl).symm
  | some first =>
    cases cycle' : cycleOf (r.uncached.read d name).1 with
    | none => exact .inl ((same cycle').mp rfl)
    | some second => exact .inr ⟨by rw [cycle]; rfl, by rw [cycle']; rfl⟩

theorem SameUnlessCyclic.map {ρ σ : Type} {result result' : Except ModelError ρ} (f : ρ → σ)
    (same : SameUnlessCyclic result result') :
    SameUnlessCyclic (result.map f) (result'.map f) := by
  rcases same with rfl | cyclic
  · exact .inl rfl
  · exact .inr (by rwa [cycleOf_map, cycleOf_map])

omit [BaseScalar β] [Scalar α] [Precision β α] in
theorem SameUnlessCyclic.exists_ok {result result' : Except ModelError (Field α)}
    (same : SameUnlessCyclic result result') {values : Array α}
    (returned : result.toOption.map Field.toArray = some values) :
    ∃ data, result = .ok data ∧ result' = .ok data ∧ data.toArray = values := by
  rcases result with e | data
  · cases returned
  · rcases same with same | ⟨cyclic, -⟩
    · exact ⟨data, rfl, same.symm, Option.some.inj returned⟩
    · cases cyclic

theorem Coherent.find_same (coherent : Coherent used r) (name : String) :
    SameUnlessCyclic (r.find name).1 (r.uncached.find name).1 := by
  have resolve := congrFun r.resolve?_uncached name
  cases resolved : r.resolve? name with
  | none =>
    rw [find_of_unresolved resolved, find_of_unresolved (resolve.trans resolved)]
    exact .inl rfl
  | some found =>
    rw [find_of_resolved resolved, find_of_resolved (resolve.trans resolved)]
    exact (coherent.read_same _ _).map _

/-- Between any two calls of a tame history, a fresh computed model caches what is computed from
scratch, and every read returns what a read from scratch returns. -/
theorem fresh_eq_recomputed_during_run (instanceId : Nat) (device name : String) (mesh : Mesh β)
    (chunking : Chunking) (before after : List (Change β α))
    (tame : (create instanceId device name mesh chunking).Tame (before ++ after)) :
    let r := (create instanceId device name mesh chunking : Region β α).run before
    (∀ d n m, r.models.get? d n = some m → m.isComputed = true → m.state = .fresh →
      ∃ data, m.value = some data ∧ (r.uncached.read d n).1 = .ok data) ∧
    (∀ d n, SameUnlessCyclic (r.read d n).1 (r.uncached.read d n).1) ∧
    ∀ n, SameUnlessCyclic (r.find n).1 (r.uncached.find n).1 := by
  intro r
  have coherent := coherent_during_run instanceId device name mesh chunking before after tame
  refine ⟨fun d n m found _ fresh => ?_, coherent.read_same, coherent.find_same⟩
  obtain ⟨data, value, yields⟩ := coherent.current d n m found fresh
  exact ⟨data, value, (coherent.toSettled.uncached.read_eq_iff rfl).mpr yields⟩

/-- A fresh model that a read has computed, before the model that it refers to is written again. -/
theorem fresh_eq_recomputed_after_read :
    let start : Region Float Float :=
      create 0 "device" "region" ⟨.segment, #[⟨0, 0, 0⟩, ⟨1, 0, 0⟩], #[⟨0, 1⟩], #[]⟩ {}
    let before : List (Change Float Float) :=
      [.setUniform .edge "u" 1, .declare .edge "m" ∅ (.model "u"), .read .edge "m"]
    start.Tame (before ++ [.setUniform .edge "u" 2]) ∧
      ∃ m data, (start.run before).models.get? .edge "m" = some m ∧ m.state = .fresh ∧
        m.value = some data ∧ ((start.run before).uncached.read .edge "m").1 = .ok data := by
  intro start before
  have tame : start.Tame (before ++ [.setUniform .edge "u" 2]) := by
    refine tame_of_inUse (by decide) (by decide) ?_
    intro change member e declared base corner side index leaf known
    have short : ∀ key ∈ inUse (before ++ [.setUniform .edge "u" 2]), key.2.length = 1 := by decide
    have long : 1 < (Suffix.edgeEnd side).text.length := by cases side <;> decide
    have length := short _ known
    rw [Suffix.apply, String.length_append] at length
    omega
  have state : ∃ m, (start.run before).models.get? .edge "m" = some m ∧
      (m.isComputed && m.state == .fresh) = true :=
    (Option.any_eq_true _ _).mp (by decide +kernel)
  obtain ⟨m, found, conditions⟩ := state
  obtain ⟨computed, fresh⟩ := (Bool.and_eq_true _ _).mp conditions
  have recomputed := (fresh_eq_recomputed_during_run 0 "device" "region" _ {} before _ tame).1
  obtain ⟨data, value, read⟩ := recomputed .edge "m" m found computed (beq_iff_eq.mp fresh)
  exact ⟨tame, m, data, found, beq_iff_eq.mp fresh, value, read⟩

end Region

end FiniteVolume
