/-!
Where bulk rows go. A boundary equation may take over a row of a bulk equation: what the bulk
equation assembles there is dropped, moved to another row, or copied to it.
-/
namespace FiniteVolume

inductive RowMove where
  | dropped
  /-- They land on another row and, if `keepCopy` is set, also stay. -/
  | moved (target : Nat) (keepCopy : Bool)
  deriving Repr, DecidableEq

namespace RowMove

/-- The row that takes over, if the records are not dropped. -/
def target? : RowMove → Option Nat
  | dropped => none
  | moved target _ => some target

def keepsCopy : RowMove → Bool
  | dropped => false
  | moved _ keepCopy => keepCopy

def text : RowMove → String
  | dropped => "-> dropped"
  | moved target keepCopy => s!"-> {target}" ++ (if keepCopy then " (keep copy)" else "")

def destinations (row : Nat) : RowMove → List Nat
  | dropped => []
  | moved target keepCopy => target :: if keepCopy then [row] else []

end RowMove

structure RowConflict where
  row : Nat
  existing : RowMove
  attempted : RowMove
  deriving Repr, DecidableEq

def RowConflict.message (c : RowConflict) : String :=
  s!"row {c.row} permuted twice (" ++ c.existing.text ++ " then " ++ c.attempted.text ++ ")"

/-- The claimed rows with their moves, in ascending order of row. -/
structure RowMap where
  entries : List (Nat × RowMove) := []
  deriving Repr, DecidableEq

namespace RowMap

def empty : RowMap := {}

instance : EmptyCollection RowMap := ⟨empty⟩

def get? (m : RowMap) (row : Nat) : Option RowMove := m.entries.lookup row

def size (m : RowMap) : Nat := m.entries.length

/-- Put an entry in front of the first larger row. -/
def place (row : Nat) (move : RowMove) : List (Nat × RowMove) → List (Nat × RowMove)
  | [] => [(row, move)]
  | (r, m) :: rest => if row < r then (row, move) :: (r, m) :: rest else (r, m) :: place row move rest

def claim (m : RowMap) (row : Nat) (move : RowMove) : Except RowConflict RowMap :=
  match m.get? row with
  | some existing => .error ⟨row, existing, move⟩
  | none => .ok ⟨place row move m.entries⟩

/-- The rows on which a record written to `row` lands: `row` itself unless it is claimed. -/
def destinations (m : RowMap) (row : Nat) : List Nat :=
  match m.get? row with
  | none => [row]
  | some move => move.destinations row

def target? (m : RowMap) (row : Nat) : Option Nat :=
  match m.get? row with
  | none => some row
  | some move => move.target?

end RowMap

end FiniteVolume
