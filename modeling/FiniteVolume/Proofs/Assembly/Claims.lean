import FiniteVolume.Proofs.Assembly.Pass
import Mathlib.Data.List.Nodup

/-!
Claims of rows, one after the other.

Claiming the rows of a list succeeds if and only if they are distinct and none of them was claimed
before (`RowMap.claimAll_eq_ok_iff`), and then exactly those are claimed besides
(`RowMap.mem_entries_of_claimAll`). `Pass.Claims` says of a step over rows which rows it claims, on
which condition, and that it leaves its owner alone.
-/
namespace FiniteVolume

namespace RowMap

variable {m m' : RowMap} {row : Nat} {move : RowMove} {claims : List (Nat × RowMove)}

theorem mem_place {x : Nat × RowMove} {entries : List (Nat × RowMove)} :
    x ∈ place row move entries ↔ x = (row, move) ∨ x ∈ entries := by
  induction entries with
  | nil => simp [place]
  | cons e rest ih =>
    obtain ⟨r, m⟩ := e
    unfold place
    split
    · simp
    · simp [ih, or_left_comm]

theorem get?_eq_none_iff : m.get? row = none ↔ ∀ x ∈ m.entries, x.1 ≠ row := by
  rw [get?, List.lookup_eq_none_iff]
  refine forall₂_congr fun x _ => ?_
  rw [bne_iff_ne]
  exact ne_comm

theorem mem_entries_of_get? (found : m.get? row = some move) : (row, move) ∈ m.entries := by
  obtain ⟨before, after, entries, -⟩ := List.lookup_eq_some_iff.mp found
  exact entries ▸ List.mem_append_right _ (List.mem_cons_self ..)

theorem claim_eq_ok_iff :
    m.claim row move = .ok m' ↔ m.get? row = none ∧ ⟨place row move m.entries⟩ = m' := by
  unfold claim
  split
  next existing found => simp [found]
  next free => simp [free]

/-- Claim the rows of a list, as far as they are free. -/
def claimAll : List (Nat × RowMove) → RowMap → Except RowConflict RowMap
  | [], m => .ok m
  | x :: rest, m => m.claim x.1 x.2 >>= claimAll rest

theorem claimAll_append (claims rest : List (Nat × RowMove)) (m : RowMap) :
    claimAll (claims ++ rest) m = claimAll claims m >>= claimAll rest := by
  induction claims generalizing m with
  | nil => rfl
  | cons x claims ih =>
    rw [List.cons_append, claimAll, claimAll]
    cases m.claim x.1 x.2 with
    | error conflict => rfl
    | ok m' => exact ih m'

theorem claimAll_cons_eq_ok_iff {x : Nat × RowMove} : claimAll (x :: claims) m = .ok m' ↔
    m.get? x.1 = none ∧ claimAll claims ⟨place x.1 x.2 m.entries⟩ = .ok m' := by
  rw [claimAll]
  cases claimed : m.claim x.1 x.2 with
  | error conflict =>
    refine ⟨fun ran => (nomatch ran), fun free => ?_⟩
    cases claimed.symm.trans (claim_eq_ok_iff.mpr ⟨free.1, rfl⟩)
  | ok m'' =>
    obtain ⟨free, rfl⟩ := claim_eq_ok_iff.mp claimed
    exact ⟨fun ran => ⟨free, ran⟩, And.right⟩

/-- The entries afterwards are the claims and the entries from before. -/
theorem mem_entries_of_claimAll (ran : claimAll claims m = .ok m') {x : Nat × RowMove} :
    x ∈ m'.entries ↔ x ∈ claims ∨ x ∈ m.entries := by
  induction claims generalizing m with
  | nil =>
    cases ran
    simp
  | cons claim rest ih =>
    obtain ⟨-, ran⟩ := claimAll_cons_eq_ok_iff.mp ran
    rw [ih ran, mem_place, List.mem_cons]
    exact or_left_comm.trans or_assoc.symm

/-- Claims succeed if and only if their rows are distinct and free. -/
theorem claimAll_eq_ok_iff : (∃ m', claimAll claims m = .ok m') ↔
    (claims.map Prod.fst).Nodup ∧ ∀ x ∈ claims, m.get? x.1 = none := by
  induction claims generalizing m with
  | nil => simp [claimAll]
  | cons claim rest ih =>
    simp only [claimAll_cons_eq_ok_iff, exists_and_left, ih, List.map_cons, List.nodup_cons,
      List.forall_mem_cons]
    have free : ∀ x : Nat × RowMove, get? ⟨place claim.1 claim.2 m.entries⟩ x.1 = none ↔
        x.1 ≠ claim.1 ∧ m.get? x.1 = none := by
      intro x
      simp only [get?_eq_none_iff, mem_place, or_imp, forall_and, forall_eq]
      exact and_congr_left' ne_comm
    have apart : (∀ x ∈ rest, x.1 ≠ claim.1) ↔ claim.1 ∉ rest.map Prod.fst := by
      simp only [List.mem_map, not_exists, not_and, ne_eq]
    simp only [free, forall_and, apart]
    tauto

/-- In a map that results from claims alone, a row has the move it was claimed with. -/
theorem get?_eq_some_iff_of_claimAll (ran : claimAll claims ∅ = .ok m) :
    m.get? row = some move ↔ (row, move) ∈ claims := by
  have entries : ∀ x, x ∈ m.entries ↔ x ∈ claims := fun x =>
    (mem_entries_of_claimAll ran).trans (or_iff_left (List.not_mem_nil (a := x)))
  refine ⟨fun found => (entries _).mp (mem_entries_of_get? found), fun member => ?_⟩
  cases found : m.get? row with
  | none => exact absurd rfl (get?_eq_none_iff.mp found _ ((entries _).mpr member))
  | some move' =>
    have distinct := (claimAll_eq_ok_iff.mp ⟨m, ran⟩).1
    have same := List.inj_on_of_nodup_map distinct ((entries _).mp (mem_entries_of_get? found))
      member rfl
    exact congrArg some (congrArg Prod.snd same)

/-- How claims that meet the rows claimed before have ended, and with which rows. -/
def Claimed (claims : List (Nat × RowMove)) (before : RowMap) (result : Except AssemblyError Unit)
    (after : RowMap) : Prop :=
  match claimAll claims before with
  | .ok rows => result = .ok () ∧ after = rows
  | .error conflict => result = .error (.rowConflict conflict)

namespace Claimed

variable {before after : RowMap} {result : Except AssemblyError Unit}

theorem of_ok (claimed : Claimed claims before (.ok ()) after) :
    claimAll claims before = .ok after := by
  unfold Claimed at claimed
  split at claimed
  next ran => rw [ran, claimed.2]
  · cases claimed

theorem append {rest : List (Nat × RowMove)} (first : Claimed claims before (.ok ()) m)
    (second : Claimed rest m result after) : Claimed (claims ++ rest) before result after := by
  rw [Claimed, claimAll_append, first.of_ok]
  exact second

theorem append_of_error {rest : List (Nat × RowMove)} {e : AssemblyError}
    (first : Claimed claims before (.error e) m) :
    Claimed (claims ++ rest) before (.error e) after := by
  unfold Claimed at first ⊢
  rw [claimAll_append]
  cases ran : claimAll claims before with
  | ok rows =>
    rw [ran] at first
    cases first.1
  | error conflict =>
    rw [ran] at first
    exact first

/-- Claims end in a conflict if and only if they meet a row a second time. -/
theorem conflict_iff (claimed : Claimed claims ∅ result after) :
    (∃ conflict, result = .error (.rowConflict conflict)) ↔ ¬(claims.map Prod.fst).Nodup := by
  have ended : (∃ rows, claimAll claims ∅ = .ok rows) ↔ _ := claimAll_eq_ok_iff
  simp only [show ∀ row, (∅ : RowMap).get? row = none from fun _ => rfl, implies_true, and_true]
    at ended
  rw [← ended]
  unfold Claimed at claimed
  split at claimed
  next rows ran => simp [claimed.1, ran]
  next conflict ran => simp [claimed, ran]

theorem eq_ok (claimed : Claimed claims before result after)
    (free : ¬∃ conflict, result = .error (.rowConflict conflict)) : result = .ok () := by
  unfold Claimed at claimed
  split at claimed
  · exact claimed.1
  next conflict _ => exact absurd ⟨conflict, claimed⟩ free

end Claimed

end RowMap

namespace Pass

variable {σ α ρ : Type}

/-- Where it has slots, the step claims rows; without, it fails. It leaves the owner alone. -/
structure Claims (step : Pass σ α Unit) (slotted : σ → Prop)
    (claims : σ → List (Nat × RowMove)) : Prop where
  owner : ∀ s, (step s).2.owner = s.owner
  claimed : ∀ s, slotted s.owner →
    RowMap.Claimed (claims s.owner) s.rows (step s).1 (step s).2.rows
  refused : ∀ s, ¬slotted s.owner → ∃ e, (step s).1 = .error e

/-- The step finds something in the owner, or fails and leaves the owner alone. -/
def Finds (step : Pass σ α ρ) (found : σ → Option ρ) : Prop :=
  ∀ s, (∃ x, found s.owner = some x ∧ step s = (.ok x, s)) ∨
    (found s.owner = none ∧ ∃ e s', step s = (.error e, s') ∧ s'.owner = s.owner)

namespace Claims

variable {step : Pass σ α Unit} {slotted slotted' : σ → Prop}
  {claims claims' : σ → List (Nat × RowMove)}

/-- A step that succeeds has slots, and its rows are claimed. -/
theorem of_ok (h : Claims step slotted claims) {s s' : PassState σ α} (ran : step s = (.ok (), s')) :
    slotted s.owner ∧ RowMap.claimAll (claims s.owner) s.rows = .ok s'.rows := by
  have slots : slotted s.owner := by
    by_contra missing
    obtain ⟨e, failed⟩ := h.refused s missing
    rw [ran] at failed
    cases failed
  have claimed := h.claimed s slots
  rw [ran] at claimed
  exact ⟨slots, claimed.of_ok⟩

theorem congr (h : Claims step slotted claims) (slots : ∀ o, slotted' o ↔ slotted o)
    (same : ∀ o, slotted o → claims' o = claims o) : Claims step slotted' claims' where
  owner := h.owner
  claimed s here := same _ ((slots _).mp here) ▸ h.claimed s ((slots _).mp here)
  refused s missing := h.refused s (mt (slots _).mpr missing)

theorem skip : Claims (Pure.pure () : Pass σ α Unit) (fun _ => True) fun _ => [] where
  owner _ := rfl
  claimed _ _ := ⟨rfl, rfl⟩
  refused _ missing := absurd trivial missing

theorem claimRow (row : Nat) (move : RowMove) :
    Claims (Pass.claimRow row move : Pass σ α Unit) (fun _ => True) fun _ => [(row, move)] where
  owner s := by
    unfold Pass.claimRow
    rw [bind_get]
    cases s.rows.claim row move <;> rfl
  claimed s _ := by
    unfold Pass.claimRow RowMap.Claimed RowMap.claimAll
    rw [bind_get]
    cases s.rows.claim row move with
    | ok rows => exact ⟨rfl, rfl⟩
    | error conflict => rfl
  refused _ missing := absurd trivial missing

theorem refuse (never : ∀ o, ¬slotted o) (owner : ∀ s, (step s).2.owner = s.owner)
    (fails : ∀ s, ∃ e, (step s).1 = .error e) : Claims step slotted claims where
  owner := owner
  claimed _ impossible := absurd impossible (never _)
  refused s _ := fails s

theorem bind_get {g : PassState σ α → Pass σ α Unit} {p : σ → σ → Prop}
    {c : σ → σ → List (Nat × RowMove)} (h : ∀ s, Claims (g s) (p s.owner) (c s.owner)) :
    Claims (get >>= g) (fun o => p o o) fun o => c o o where
  owner s := (h s).owner s
  claimed s := (h s).claimed s
  refused s := (h s).refused s

theorem bind_find {a : Pass σ α ρ} {g : ρ → Pass σ α Unit} {found : σ → Option ρ}
    {p : ρ → σ → Prop} {c : ρ → σ → List (Nat × RowMove)} (first : Finds a found)
    (second : ∀ x, Claims (g x) (p x) (c x)) :
    Claims (a >>= g) (fun o => ∃ x, found o = some x ∧ p x o)
      fun o => (found o).toList.flatMap (c · o) where
  owner s := by
    rcases first s with ⟨x, -, ran⟩ | ⟨-, e, s', ran, owner⟩
    · rw [bind_of_ok ran]
      exact (second x).owner s
    · rw [bind_of_error ran]
      exact owner
  claimed s := by
    rintro ⟨x, here, slots⟩
    rcases first s with ⟨y, here', ran⟩ | ⟨missing, -⟩
    · cases here.symm.trans here'
      rw [bind_of_ok ran, here]
      simpa using (second x).claimed s slots
    · cases here.symm.trans missing
  refused s missing := by
    rcases first s with ⟨x, here, ran⟩ | ⟨-, e, s', ran, -⟩
    · rw [bind_of_ok ran]
      exact (second x).refused s fun slots => missing ⟨x, here, slots⟩
    · exact ⟨e, by rw [bind_of_error ran]⟩

theorem append {a b : Pass σ α Unit} (first : Claims a slotted claims)
    (second : Claims b slotted' claims') :
    Claims (a >>= fun _ => b) (fun o => slotted o ∧ slotted' o) fun o => claims o ++ claims' o where
  owner s := by
    have same := first.owner s
    rcases ran : a s with ⟨e | ⟨⟩, s'⟩
    · rw [bind_of_error ran, ← same, ran]
    · rw [bind_of_ok ran, second.owner s', ← same, ran]
  claimed s := by
    rintro ⟨here, later⟩
    have same := first.owner s
    have claimed := first.claimed s here
    rcases ran : a s with ⟨e | ⟨⟩, s'⟩
    all_goals rw [ran] at same claimed
    · rw [bind_of_error ran]
      exact claimed.append_of_error
    · rw [bind_of_ok ran]
      exact claimed.append (same ▸ second.claimed s' (same ▸ later))
  refused s missing := by
    have same := first.owner s
    rcases ran : a s with ⟨e | ⟨⟩, s'⟩
    all_goals rw [ran] at same
    · exact ⟨e, by rw [bind_of_error ran]⟩
    · rw [bind_of_ok ran]
      refine second.refused s' fun later => missing ⟨(first.of_ok ran).1, same ▸ later⟩

/-- Steps for the elements of a list claim their rows in order. -/
theorem forM {ι : Type} {body : ι → Pass σ α Unit} {p : ι → σ → Prop}
    {c : ι → σ → List (Nat × RowMove)} {items : List ι}
    (each : ∀ x ∈ items, Claims (body x) (p x) (c x)) :
    Claims (items.forM body) (fun o => ∀ x ∈ items, p x o) fun o => items.flatMap (c · o) := by
  induction items with
  | nil => exact skip.congr (by simp) (by simp)
  | cons x rest ih =>
    refine ((each x (by simp)).append (ih fun y member => each y (by simp [member]))).congr ?_ ?_
    · exact fun o => List.forall_mem_cons
    · exact fun o _ => List.flatMap_cons

end Claims

end Pass

end FiniteVolume
