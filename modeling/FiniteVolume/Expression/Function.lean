import FiniteVolume.Expression.Special
import FiniteVolume.Ordered.Table

/-!
The functions that expressions may call, by name: elementwise functions of one to three arguments
and reductions of a field to a number.
-/
namespace FiniteVolume

inductive Reduction where
  | sum
  | max
  | min
  deriving Repr, DecidableEq

namespace Reduction

variable {β α : Type} [BaseScalar β] [Scalar α] [Precision β α]

/-- Combine the elements of a list from the left, zero for none. -/
def combine (f : α → α → α) : List α → α
  | [] => 0
  | x :: xs => xs.foldl f x

def apply (r : Reduction) (xs : List α) : α :=
  match r with
  | sum => xs.foldl (· + ·) 0
  | max => combine Scalar.max xs
  | min => combine Scalar.min xs

def applyUniform (r : Reduction) (x : α) (len : Nat) : α :=
  match r with
  | sum => x * Precision.narrow (BaseScalar.ofNat len : β)
  | max | min => if len = 0 then 0 else x

end Reduction

inductive Function (α : Type) where
  | unary (f : α → α)
  | binary (f : α → α → α)
  | ternary (f : α → α → α → α)
  | reduction (r : Reduction)

def Function.arity {α : Type} : Function α → Nat
  | unary _ | reduction _ => 1
  | binary _ => 2
  | ternary _ => 3

abbrev Registry (α : Type) := Table String (Function α)

namespace Registry

variable {β α : Type} [BaseScalar β] [Scalar α] [Precision β α]

open Scalar Special

def unaryFunctions : List (String × (α → α)) :=
  [("abs", abs), ("exp", exp), ("log", log), ("sqrt", sqrt), ("B", bernoulli),
    ("dBdx", bernoulliDx), ("step", step), ("sgn", sign), ("sinh", sinh), ("cosh", cosh),
    ("tanh", tanh), ("asinh", asinh), ("acosh", acosh), ("atanh", atanh), ("erf", erf),
    ("erfc", erfc), ("derfdx", erfDx), ("derfcdx", erfcDx), ("Fermi", fermi),
    ("dFermidx", fermiDx), ("InvFermi", invFermi), ("dInvFermidx", invFermiDx), ("!", Special.not)]

omit [BaseScalar β] [Precision β α] in
def binaryFunctions : List (String × (α → α → α)) :=
  [("pow", pow), ("min", Scalar.min), ("max", Scalar.max), ("&&", Special.and),
    ("||", Special.or), ("==", fun x y => truth (eq x y)), ("!=", fun x y => truth (!eq x y)),
    ("<", fun x y => truth (lt x y)), ("<=", fun x y => truth (le x y)),
    (">", fun x y => truth (lt y x)), (">=", fun x y => truth (le y x))]

def builtin : Registry α :=
  let entries : List (String × Function α) :=
    unaryFunctions.map (fun (name, f) => (name, .unary f))
      ++ binaryFunctions.map (fun (name, f) => (name, .binary f))
      ++ [("ifelse", .ternary select), ("vec_sum", .reduction .sum),
        ("vec_max", .reduction .max), ("vec_min", .reduction .min)]
  entries.foldl (fun r (name, f) => r.insert name f) Table.empty

end Registry

end FiniteVolume
