import FiniteVolume.Settings

/-!
Elementwise work on long vectors, one contiguous chunk at a time. Each vector is divided by itself
and chunks are combined in the order in which they come. Chunks are independent, so the result is
that of one pass over the whole vector, whatever the chunk length.
-/
namespace FiniteVolume.Chunking

variable {α γ : Type}

def divides (c : Chunking) (len : Nat) : Bool := c.threshold ≤ len

/-- Consecutive chunks of `size` elements, the last one shorter. A chunk length of zero leaves the
vector whole. -/
def chunks (size : Nat) (xs : Array α) : List (Array α) :=
  if _h : xs.size = 0 then []
  else if _h : size = 0 then [xs]
  else xs.extract 0 size :: chunks size (xs.extract size xs.size)
termination_by xs.size
decreasing_by simp only [Array.size_extract]; omega

def join (parts : List (Array α)) : Array α := parts.foldl (· ++ ·) #[]

def map (c : Chunking) (f : α → γ) (xs : Array α) : Array γ :=
  if c.divides xs.size then join ((chunks c.chunk xs).map (·.map f)) else xs.map f

/-- Combine each element with the one at its position in the other vector. An element that has no
such partner stays as it is. -/
def zipInto (f : α → γ → α) (xs : Array α) (ys : Array γ) : Array α :=
  xs.mapIdx fun i x => ys[i]?.elim x (f x)

def zipChunks (f : α → γ → α) : List (Array α) → List (Array γ) → List (Array α)
  | xs :: left, ys :: right => zipInto f xs ys :: zipChunks f left right
  | left, _ => left

def zipWith (c : Chunking) (f : α → γ → α) (xs : Array α) (ys : Array γ) : Array α :=
  if c.divides xs.size then join (zipChunks f (chunks c.chunk xs) (chunks c.chunk ys))
  else zipInto f xs ys

/-- The elements of `xs` at the given positions; a position outside gives the default. -/
def gather (c : Chunking) (fallback : α) (xs : Array α) (index : Array Nat) : Array α :=
  c.map (fun i => xs[i]?.getD fallback) index

end FiniteVolume.Chunking
