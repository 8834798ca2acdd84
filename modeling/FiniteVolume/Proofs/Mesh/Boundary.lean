import FiniteVolume.Mesh.Boundary

/-!
Nodes on a contact, and nodes that it owns.

A contact keeps its nodes in ascending order, so that a search by halving finds exactly those that it
was made from (`Contact.contains_iff`). A mask is written node by node; after both passes it is set at
the nodes that are on the contact and on no earlier one (`isActive_activeNodes`).
-/
namespace FiniteVolume

/-! ## Searching -/

section

variable {ns : List Nat} {n low high : Nat}

theorem exists_of_searchBetween (found : searchBetween ns n low high = true) :
    ∃ i, low ≤ i ∧ i < high ∧ ns[i]? = some n := by
  fun_induction searchBetween ns n low high with
  | case1 | case5 => cases found
  | case2 low high between middle m here below ih =>
    obtain ⟨i, after, before, there⟩ := ih found
    exact ⟨i, by omega, before, there⟩
  | case3 low high between middle m here reaches above ih =>
    obtain ⟨i, after, before, there⟩ := ih found
    exact ⟨i, after, by omega, there⟩
  | case4 low high between middle m here reaches above =>
    have same : m = n := by omega
    exact ⟨middle, by omega, by omega, same ▸ here⟩

/-- In an ascending list smaller numbers stand further to the front. -/
theorem Ascending.position_lt [sorted : Ascending ns] {i j m : Nat} (first : ns[i]? = some m)
    (second : ns[j]? = some n) (less : m < n) : i < j := by
  obtain ⟨inside, rfl⟩ := List.getElem?_eq_some_iff.mp first
  obtain ⟨inside', rfl⟩ := List.getElem?_eq_some_iff.mp second
  rcases Nat.lt_trichotomy i j with before | rfl | after
  · exact before
  · omega
  · have order := List.pairwise_iff_getElem.mp sorted.pairwise j i inside' inside after
    omega

/-- What stands between the bounds of a search is found: the half that is left out holds other numbers
only. -/
theorem searchBetween_of_position [Ascending ns] {i : Nat} (after : low ≤ i) (before : i < high)
    (here : ns[i]? = some n) (bounded : high ≤ ns.length) : searchBetween ns n low high = true := by
  fun_induction searchBetween ns n low high with
  | case1 low high between middle outside =>
    have past := List.getElem?_eq_none_iff.mp outside
    omega
  | case2 low high between middle m there below ih =>
    have later := Ascending.position_lt there here below
    exact ih (by omega) before bounded
  | case3 low high between middle m there reaches above ih =>
    have earlier := Ascending.position_lt here there above
    exact ih after earlier (by omega)
  | case4 => rfl
  | case5 low high empty => omega

theorem searchBetween_iff [Ascending ns] : searchBetween ns n 0 ns.length = true ↔ n ∈ ns := by
  rw [List.mem_iff_getElem?]
  constructor
  · intro found
    obtain ⟨i, -, -, here⟩ := exists_of_searchBetween found
    exact ⟨i, here⟩
  · rintro ⟨i, here⟩
    have inside := (List.getElem?_eq_some_iff.mp here).1
    exact searchBetween_of_position (Nat.zero_le i) inside here (Nat.le_refl _)

end

namespace Contact

theorem contains_iff {c : Contact} {n : Nat} : c.contains n = true ↔ n ∈ c.nodes :=
  have := c.sorted
  searchBetween_iff

theorem contains_eq_false_iff {c : Contact} {n : Nat} : c.contains n = false ↔ n ∉ c.nodes := by
  rw [← contains_iff, Bool.not_eq_true]

/-! ## Making a contact -/

section

variable {name region : String} {nodes : List Nat} {nodeCount : Nat}

theorem of_nil : Contact.of name region [] nodeCount = .error (.emptyBoundary name) := rfl

/-- The nodes before the first one that does not exist are passed over. -/
theorem of_append {before after : List Nat} {n : Nat} (exist : ∀ m ∈ before, m < nodeCount)
    (missing : nodeCount ≤ n) : Contact.of name region (before ++ n :: after) nodeCount =
      .error (.boundaryNodeOutOfRange name n nodeCount) := by
  have passed : before.find? (nodeCount ≤ ·) = none := by simpa using exist
  have first : (before ++ n :: after).find? (nodeCount ≤ ·) = some n := by
    simp [List.find?_append, passed, missing]
  simp [Contact.of, first]

theorem of_eq_ok_iff {c : Contact} : Contact.of name region nodes nodeCount = .ok c ↔
    nodes ≠ [] ∧ (∀ n ∈ nodes, n < nodeCount) ∧ c = ⟨name, region, ascending nodes⟩ := by
  unfold Contact.of
  cases nodes with
  | nil => simp
  | cons n rest =>
    cases search : (n :: rest).find? (nodeCount ≤ ·) with
    | none =>
      have exist : ∀ m ∈ n :: rest, m < nodeCount := by simpa using search
      constructor
      · intro made
        cases made
        exact ⟨List.cons_ne_nil _ _, exist, rfl⟩
      · rintro ⟨-, -, rfl⟩
        rfl
    | some m =>
      have member := List.mem_of_find?_eq_some search
      have missing : nodeCount ≤ m := by simpa using List.find?_some search
      constructor
      · intro made
        cases made
      · rintro ⟨-, exist, -⟩
        have := exist m member
        omega

end

end Contact

/-! ## Writing a mask -/

section

variable {mask : Array Bool} {nodes : List Nat} {n : Nat}

@[simp] theorem size_setNodes (mask : Array Bool) (nodes : List Nat) :
    (setNodes mask nodes).size = mask.size := by
  induction nodes generalizing mask with
  | nil => rfl
  | cons k rest ih =>
    rw [setNodes, List.foldl_cons, ← setNodes, ih]
    split <;> simp

@[simp] theorem size_clearNodes (mask : Array Bool) (nodes : List Nat) :
    (clearNodes mask nodes).size = mask.size := by
  induction nodes generalizing mask with
  | nil => rfl
  | cons k rest ih =>
    rw [clearNodes, List.foldl_cons, ← clearNodes, ih]
    split <;> simp

theorem lt_size_of_isActive (set : isActive mask n = true) : n < mask.size := by
  by_cases inside : n < mask.size
  · exact inside
  · simp [isActive, inside] at set

theorem isActive_setIfInBounds {k : Nat} (inside : k < mask.size) {mark : Bool} :
    isActive (mask.setIfInBounds k mark) n = if n = k then mark else isActive mask n := by
  by_cases here : n = k
  · subst here
    simp [isActive, inside]
  · simp [isActive, here, Ne.symm here]

theorem isActive_setNodes : isActive (setNodes mask nodes) n = true ↔
    (n ∈ nodes ∧ n < mask.size) ∨ isActive mask n = true := by
  induction nodes generalizing mask with
  | nil => simp [setNodes]
  | cons k rest ih =>
    rw [setNodes, List.foldl_cons, ← setNodes, ih, List.mem_cons]
    split
    next inside =>
      rw [isActive_setIfInBounds inside, Array.size_setIfInBounds]
      grind
    next outside => grind

/-- Clearing a node that is not set would change nothing. -/
theorem isActive_clearNodes :
    isActive (clearNodes mask nodes) n = true ↔ isActive mask n = true ∧ n ∉ nodes := by
  induction nodes generalizing mask with
  | nil => simp [clearNodes]
  | cons k rest ih =>
    rw [clearNodes, List.foldl_cons, ← clearNodes, ih, List.mem_cons]
    split
    next set =>
      rw [isActive_setIfInBounds (lt_size_of_isActive set)]
      grind
    next unset => grind

theorem isActive_clearAll {claimed : List Contact} :
    isActive (claimed.foldl (fun mask earlier => clearNodes mask earlier.nodes) mask) n = true ↔
      isActive mask n = true ∧ ∀ c ∈ claimed, n ∉ c.nodes := by
  induction claimed generalizing mask with
  | nil => simp
  | cons c rest ih => rw [List.foldl_cons, ih, isActive_clearNodes, List.forall_mem_cons, and_assoc]

end

section

variable (nodeCount : Nat) (contact : Contact) (claimed : List Contact)

@[simp] theorem size_activeNodes : (activeNodes nodeCount contact claimed).size = nodeCount := by
  have still : ∀ mask : Array Bool,
      (claimed.foldl (fun mask earlier => clearNodes mask earlier.nodes) mask).size = mask.size := by
    induction claimed with
    | nil => simp
    | cons c rest ih => simp [ih]
  rw [activeNodes, still, size_setNodes, Array.size_replicate]

/-- A contact owns the nodes of a region that are on it and on no earlier contact. -/
theorem isActive_activeNodes {n : Nat} : isActive (activeNodes nodeCount contact claimed) n = true ↔
    n < nodeCount ∧ n ∈ contact.nodes ∧ ∀ c ∈ claimed, n ∉ c.nodes := by
  have unset : ¬isActive (Array.replicate nodeCount false) n = true := by
    by_cases inside : n < nodeCount <;> simp [isActive, inside]
  rw [activeNodes, isActive_clearAll, isActive_setNodes, Array.size_replicate]
  grind

end

theorem isActive_iff {mask : Array Bool} {n : Nat} : isActive mask n = true ↔ mask[n]? = some true := by
  cases here : mask[n]? <;> simp [isActive, here]

/-- A contact is made exactly from a non-empty list of nodes that exist, and then holds these nodes in
ascending order; otherwise the first node that does not exist is named. The mask of a contact has an
entry for each node of the region, set where the node is on the contact and on no earlier one; what the
contacts were made for does not matter, nor does the order of the earlier ones. -/
theorem contact_nodes_and_masks_exact :
    (∀ (name region : String) (nodes : List Nat) (nodeCount : Nat),
      ((∃ c, Contact.of name region nodes nodeCount = .ok c) ↔
        nodes ≠ [] ∧ ∀ n ∈ nodes, n < nodeCount) ∧
      Contact.of name region [] nodeCount = .error (.emptyBoundary name) ∧
      (∀ (before after : List Nat) (n : Nat), nodes = before ++ n :: after →
        (∀ m ∈ before, m < nodeCount) → nodeCount ≤ n →
        Contact.of name region nodes nodeCount = .error (.boundaryNodeOutOfRange name n nodeCount)) ∧
      ∀ c, Contact.of name region nodes nodeCount = .ok c →
        c.name = name ∧ c.region = region ∧ c.nodes.Pairwise (· < ·) ∧
        ∀ n, (n ∈ c.nodes ↔ n ∈ nodes) ∧ (c.contains n = true ↔ n ∈ nodes)) ∧
    ∀ (nodeCount : Nat) (contact : Contact) (earlier : List Contact),
      (activeNodes nodeCount contact earlier).size = nodeCount ∧
      ∀ n, (activeNodes nodeCount contact earlier)[n]? = some true ↔
        n < nodeCount ∧ n ∈ contact.nodes ∧ ∀ c ∈ earlier, n ∉ c.nodes := by
  refine ⟨fun name region nodes nodeCount => ⟨?_, Contact.of_nil, ?_, ?_⟩, ?_⟩
  · simp only [Contact.of_eq_ok_iff, exists_and_left, exists_eq, and_true]
  · rintro before after n rfl exist missing
    exact Contact.of_append exist missing
  · intro c made
    obtain ⟨-, -, rfl⟩ := Contact.of_eq_ok_iff.mp made
    exact ⟨rfl, rfl, pairwise_ascending nodes, fun n =>
      ⟨mem_ascending, Contact.contains_iff.trans mem_ascending⟩⟩
  · intro nodeCount contact earlier
    refine ⟨size_activeNodes nodeCount contact earlier, fun n => ?_⟩
    rw [← isActive_iff, isActive_activeNodes]

/-- Contacts that share a node. The earlier one was made for a larger region. -/
theorem contact_nodes_and_masks_exact_shared :
    ∃ c e : Contact, Contact.of "anode" "line" [3, 0, 3] 4 = .ok c ∧
      Contact.of "gate" "line" [7, 3] 9 = .ok e ∧
      (c.contains 3 = true ∧ c.contains 1 = false) ∧
      (activeNodes 4 c [e])[0]? = some true ∧ (activeNodes 4 c [e])[3]? ≠ some true ∧
      Contact.of "anode" "line" [3, 0, 5, 4] 4 = .error (.boundaryNodeOutOfRange "anode" 5 4) := by
  obtain ⟨contacts, masks⟩ := contact_nodes_and_masks_exact
  obtain ⟨c, made⟩ := (contacts "anode" "line" [3, 0, 3] 4).1.mpr (by decide)
  obtain ⟨e, other⟩ := (contacts "gate" "line" [7, 3] 9).1.mpr (by decide)
  obtain ⟨-, -, -, members⟩ := (contacts "anode" "line" [3, 0, 3] 4).2.2.2 c made
  obtain ⟨-, -, -, members'⟩ := (contacts "gate" "line" [7, 3] 9).2.2.2 e other
  have failed := (contacts "anode" "line" [3, 0, 5, 4] 4).2.2.1 [3, 0] [4] 5 rfl (by decide) (by decide)
  refine ⟨c, e, made, other, ⟨(members 3).2.mpr (by decide), ?_⟩, ?_, ?_, failed⟩
  · exact Bool.eq_false_iff.mpr fun found => absurd ((members 1).2.mp found) (by decide)
  · refine ((masks 4 c [e]).2 0).mpr ⟨by decide, (members 0).1.mpr (by decide), ?_⟩
    simp [(members' 0).1]
  · intro set
    obtain ⟨-, -, unclaimed⟩ := ((masks 4 c [e]).2 3).mp set
    exact unclaimed e (List.mem_singleton_self e) ((members' 3).1.mpr (by decide))

end FiniteVolume
