/-!
The two sides of an interface, or the two ends of an edge, and their numbers.
-/
namespace FiniteVolume

/-- A side of an interface, or an end of an edge. -/
inductive Side where
  | first
  | second
  deriving Repr, DecidableEq

namespace Side

def both : List Side := [first, second]

def index : Side → Nat
  | first => 0
  | second => 1

def ofIndex? (n : Nat) : Option Side := both.find? (·.index = n)

theorem mem_both (s : Side) : s ∈ both := by cases s <;> simp [both]

theorem ofIndex?_eq_some_iff {n : Nat} {s : Side} : ofIndex? n = some s ↔ s.index = n := by
  match n with
  | 0 => cases s <;> simp [ofIndex?, both, index]
  | 1 => cases s <;> simp [ofIndex?, both, index]
  | n + 2 => cases s <;> simp [ofIndex?, both, index]

end Side

end FiniteVolume
