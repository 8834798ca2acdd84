import FiniteVolume.Proofs.Field.Elements
import FiniteVolume.Proofs.Model.Coherence
import FiniteVolume.Proofs.Numeric.Exact

/-!
Replaced contacts.

A model on a contact is masked when its value is cached, by the contact that is registered then.
A replacement therefore takes effect on everything that is computed after it, and on nothing that is
cached (`replaced_contact_takes_effect`). After histories that replace a contact only while nothing is
cached that was computed from it, everything is read as if it were computed anew.
-/
namespace FiniteVolume

variable {β α : Type}

theorem Field.get?_restrict [Scalar α] (f : Field α) (keep : List Nat) (i : Nat) :
    (f.restrict keep).get? i = (f.get? i).map fun x => if i ∈ keep then x else 0 := by
  rw [get?_eq, get?_eq, toArray_restrict, Array.getElem?_mapIdx]

theorem Field.exists_get? (f : Field α) {i : Nat} (inside : i < f.size) : ∃ x, f.get? i = some x := by
  rw [get?_eq]
  exact ⟨_, Array.getElem?_eq_getElem (by rwa [size_toArray])⟩

namespace Region

section

variable [Scalar α]

def calculation (r : Region β α) (d : Domain) (name : String) (m : Model β α)
    (calculator : Calculator β α) : Outcome α :=
  ((calculator.calculate r.surroundings (r.targetOf d name m)).runState
    (lookupWithin reportCycle r.models.models.size) parameter? (r.marked d name m)).1

/-- A result with the calculated values at the given nodes and zero at every other one. -/
def Masks (name : String) (size : Nat) (nodes : List Nat)
    (calculated result : Except ModelError (Field α)) : Prop :=
  match calculated with
  | .error e => result = .error e
  | .ok data =>
    if data.size = size then
      ∃ values, result = .ok values ∧ values.size = size ∧
        ∀ i < size, values.get? i = if i ∈ nodes then data.get? i else some 0
    else result = .error (.lengthMismatch name size data.size)

theorem masks_checked (target : Target) (nodes : List Nat)
    (calculated : Except ModelError (Field α)) :
    Masks target.name target.size nodes calculated
      (ModelStore.checked target (some nodes) calculated) := by
  cases calculated with
  | error e => rfl
  | ok data =>
    by_cases fits : data.size = target.size
    · rw [Masks, if_pos fits]
      refine ⟨data.restrict nodes, ModelStore.checked_of_size_eq fits,
        (data.size_restrict nodes).trans fits, fun i inside => ?_⟩
      obtain ⟨x, found⟩ := data.exists_get? (fits ▸ inside)
      rw [Field.get?_restrict, found, Option.map_some]
      split <;> rfl
    · rw [Masks, if_neg fits]
      exact ModelStore.checked_of_size_ne fits

variable {r : Region β α} {d : Domain} {name : String} {m : Model β α} {calculator : Calculator β α}

theorem read_of_stale (found : r.models.get? d name = some m) (stale : m.state = .stale)
    (computed : m.source = .computed calculator) :
    (r.read d name).1 = r.settle (r.targetOf d name m) (r.calculation d name m calculator) := by
  have fewer := waiting_marked_lt found stale
  have enough := r.waiting_le_size
  obtain ⟨k, depth⟩ : ∃ k, r.models.models.size = k + 1 := ⟨_, (Nat.succ_pred (by omega)).symm⟩
  have within : (r.marked d name m).waiting ≤ k := by omega
  have declared := (calculate_balanced reportCycle calculator within).declared
  rw [read, calculation, depth, readWithin_of_stale_fst found stale computed within]
  exact congrFun₂ (settle_of_uncached_eq declared) _ _

/-- A stale model on a contact is read as its calculator's values at the nodes of the contact that is
registered now. -/
theorem masks_of_stale {contact : Contact} (registered : r.contacts.get? contact.name = some contact)
    (found : r.models.get? d name = some m) (computed : m.source = .computed calculator)
    (attached : m.contact = some contact.name) (stale : m.state = .stale) :
    Masks name (r.size d) contact.nodes (r.calculation d name m calculator).result
      (r.read d name).1 := by
  have nodes : r.restriction (r.targetOf d name m).contact = .ok (some contact.nodes) := by
    simp only [targetOf, attached, restriction, registered]
  rw [read_of_stale found stale computed, settle, nodes]
  exact masks_checked (r.targetOf d name m) contact.nodes _

theorem read_addContact_of_fresh (contact : Contact) (found : r.models.get? d name = some m)
    (fresh : m.state = .fresh) : ((r.addContact contact).read d name).1 = (r.read d name).1 := by
  rcases r.models.begin_cases d name with ⟨m', _, found', stale, _⟩ | ⟨result, began⟩
  · cases found.symm.trans found'
    exact absurd (fresh.symm.trans stale) (by decide)
  · have kept : (r.addContact contact).models.begin d name ((r.addContact contact).size d) =
        (result.map Access.ready, (r.addContact contact).models) := began _
    rw [read, read, readWithin_of_begin kept, readWithin_of_begin (began _)]

end

/-! ## Histories -/

variable [BaseScalar β] [Scalar α] [Precision β α]

/-- A replaced contact takes effect on whatever is not cached. A stale model on a contact is read as
its calculator's values at the nodes of the contact that is registered now, whether that was attached
last or not, and zero elsewhere. A fresh one is read as before. In considerate histories all reads,
those of models computed from it included, are as if nothing had been read before. -/
theorem replaced_contact_takes_effect :
    (∀ (r : Region β α) (contact : Contact) (d : Domain) (name : String) (m : Model β α)
        (calculator : Calculator β α), r.contacts.get? contact.name = some contact →
      r.models.get? d name = some m → m.source = .computed calculator →
      m.contact = some contact.name → m.state = .stale →
        Masks name (r.size d) contact.nodes (r.calculation d name m calculator).result
          (r.read d name).1) ∧
    (∀ (r : Region β α) (contact : Contact),
      (r.addContact contact).contacts.get? contact.name = some contact ∧
      (r.addContact contact).models = r.models ∧
      ∀ d name m, r.models.get? d name = some m → m.state = .fresh →
        ((r.addContact contact).read d name).1 = (r.read d name).1) ∧
    ∀ (instanceId : Nat) (device name : String) (mesh : Mesh β) (chunking : Chunking)
      (before after : List (Change β α)),
      (create instanceId device name mesh chunking : Region β α).Considerate (before ++ after) →
        let r := (create instanceId device name mesh chunking : Region β α).run before
        (∀ d n, SameUnlessCyclic (r.read d n).1 (r.uncached.read d n).1) ∧
        ∀ n, SameUnlessCyclic (r.find n).1 (r.uncached.find n).1 := by
  refine ⟨fun r contact d name m calculator registered found computed attached stale => ?_,
    fun r contact => ⟨?_, rfl, fun d name m found fresh => ?_⟩,
    fun instanceId device name mesh chunking before after considerate => ?_⟩
  · exact masks_of_stale registered found computed attached stale
  · rw [addContact, touch, Table.get?_insert, if_pos rfl]
  · exact read_addContact_of_fresh contact found fresh
  · exact ⟨considerate.coherent.read_same, considerate.coherent.find_same⟩

def line : Region ℚ ℚ :=
  .create 0 "device" "line"
    ⟨.segment, #[⟨0, 0, 0⟩, ⟨1, 0, 0⟩, ⟨2, 0, 0⟩], #[⟨0, 1⟩, ⟨1, 2⟩], #[]⟩ {}

/-- A model on a contact at one end of a line and one computed from it, which are read only after the
contact has moved to the other end. -/
theorem replaced_contact_takes_effect_before_read :
    let changes : List (Change ℚ ℚ) :=
      [.addContact ⟨"c", "line", [0]⟩, .declareOnContact "c" "m" ∅ (.constant 5),
        .declare .node "d" ∅ (.product [.constant 2, .model "m"]),
        .addContact ⟨"c", "line", [2]⟩]
    let r := line.run changes
    line.Considerate changes ∧
      (∃ m calculator, r.models.get? .node "m" = some m ∧ m.source = .computed calculator ∧
        Masks "m" 3 [2] (r.calculation .node "m" m calculator).result (r.read .node "m").1) ∧
      (∃ data, (r.read .node "m").1 = .ok data ∧ (r.uncached.read .node "m").1 = .ok data ∧
        data.toArray = #[0, 0, 5]) ∧
      ∃ data, (r.read .node "d").1 = .ok data ∧ (r.uncached.read .node "d").1 = .ok data ∧
        data.toArray = #[0, 0, 10] := by
  intro changes r
  have considerate : line.Considerate changes := by
    refine ⟨fun d d' name occurs occurs' => ?_, ?_, ?_⟩
    · have single : ∀ key ∈ inUse changes, ∀ key' ∈ inUse changes,
          key.2 = key'.2 → key.1 = key'.1 := by decide
      exact single _ (mem_inUse_of_occurs occurs) _ (mem_inUse_of_occurs occurs') rfl
    · intro change member e declared base corner side index leaf occurs
      have short : ∀ key ∈ inUse changes, key.2.length = 1 := by decide
      have long : 1 < (Suffix.edgeEnd side).text.length := by cases side <;> decide
      have length := short _ (mem_inUse_of_occurs occurs)
      rw [Suffix.apply, String.length_append] at length
      omega
    · refine ⟨?_, ?_, ?_, ?_, trivial⟩
      · exact fun _ _ => unread_of_not_fresh (by decide +kernel) _
      · exact fun _ other => by cases other
      · exact fun _ other => by cases other
      · exact fun _ _ => unread_of_not_fresh (by decide +kernel) _
  obtain ⟨masked, -, current⟩ := replaced_contact_takes_effect (β := ℚ) (α := ℚ)
  have same := (current 0 "device" "line" _ {} changes [] considerate).1
  have state : ∃ m, r.models.get? .node "m" = some m ∧
      (m.isComputed && m.contact == some "c" && m.state == .stale) = true :=
    (Option.any_eq_true _ _).mp (by decide +kernel)
  obtain ⟨m, found, conditions⟩ := state
  simp only [Bool.and_eq_true, beq_iff_eq] at conditions
  obtain ⟨⟨computed, attached⟩, stale⟩ := conditions
  obtain ⟨calculator, source⟩ := Model.isComputed_iff.mp computed
  have mValues : (r.read .node "m").1.toOption.map Field.toArray = some #[0, 0, 5] := by
    decide +kernel
  have dValues : (r.read .node "d").1.toOption.map Field.toArray = some #[0, 0, 10] := by
    decide +kernel
  refine ⟨considerate, ⟨m, calculator, found, source, ?_⟩, (same .node "m").exists_ok mValues,
    (same .node "d").exists_ok dValues⟩
  exact masked r ⟨"c", "line", [2]⟩ .node "m" m calculator (by decide +kernel) found source attached
    stale

/-- A model on a contact that has been read keeps its value where the contact was. -/
theorem cached_model_keeps_replaced_contact :
    let r := line.run [.addContact ⟨"c", "line", [0]⟩, .declareOnContact "c" "m" ∅ (.constant 5),
      .read .node "m", .addContact ⟨"c", "line", [2]⟩]
    (r.contacts.get? "c").map Contact.nodes = some [2] ∧
      (r.read .node "m").1.toOption.map Field.toArray = some #[5, 0, 0] ∧
      (r.uncached.read .node "m").1.toOption.map Field.toArray = some #[0, 0, 5] := by
  refine ⟨?_, ?_, ?_⟩ <;> decide +kernel

end Region

end FiniteVolume
