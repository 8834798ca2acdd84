import FiniteVolume.Name
import FiniteVolume.Numeric.Scalar
import FiniteVolume.Ordered.Set

/-!
Expression trees over models and parameters, the names they mention, and the operators that build
them. Sums and products take any number of operands; the operators keep them flat by adding to a sum
or product that stands on the left.
-/
namespace FiniteVolume

inductive Expr (β : Type) where
  | constant (value : β)
  /-- A named number: a parameter of a region or a circuit node. -/
  | parameter (name : String)
  | model (name : String)
  | sum (terms : List (Expr β))
  | product (factors : List (Expr β))
  /-- The second operand where the first is not zero, else zero. -/
  | ifThen (cond body : Expr β)
  | ifElse (cond body other : Expr β)
  | call (name : String) (args : List (Expr β))
  /-- A fragment without meaning. -/
  | invalid (text : String)

namespace Expr

variable {β : Type}

def isConstant : Expr β → Bool
  | constant _ => true
  | _ => false

mutual

def names : Expr β → List String
  | constant _ | invalid _ => []
  | parameter n | model n => [n]
  | sum xs | product xs | call _ xs => namesOfList xs
  | ifThen c t => names c ++ names t
  | ifElse c t e => names c ++ names t ++ names e

def namesOfList : List (Expr β) → List String
  | [] => []
  | x :: xs => names x ++ namesOfList xs

end

/-- The names of models and parameters, each once, in order of first use. -/
def referencedNames (e : Expr β) : List String := (OrderedSet.ofList e.names).elems

/-- The names whose change makes a model computed from the expression outdated: the referenced
names, each after its base if it has a suffix. -/
def dependencies (e : Expr β) : List String :=
  let withBase (name : String) := match Suffix.split? name with
    | some (base, _) => [base, name]
    | none => [name]
  (OrderedSet.ofList (e.referencedNames.flatMap withBase)).elems

/-! ## Operators -/

def power (x y : Expr β) : Expr β := call "pow" [x, y]

def plus (x y : Expr β) : Expr β :=
  match x with
  | sum xs => sum (xs ++ [y])
  | x => sum [x, y]

def times (x y : Expr β) : Expr β :=
  match x with
  | product xs => product (xs ++ [y])
  | x => product [x, y]

variable [BaseScalar β]

def negate : Expr β → Expr β
  | constant v => constant (-v)
  | x => product [constant (-1), x]

def minus (x y : Expr β) : Expr β := x.plus y.negate

def dividedBy (x y : Expr β) : Expr β := x.times (y.power (constant (-1)))

/-! ## Equality -/

mutual

/-- Whether two trees are equal, constants compared as numbers. -/
def same : Expr β → Expr β → Bool
  | constant v, constant w => Scalar.eq v w
  | parameter m, parameter n => m == n
  | model m, model n => m == n
  | sum xs, sum ys => sameList xs ys
  | product xs, product ys => sameList xs ys
  | ifThen c t, ifThen c' t' => same c c' && same t t'
  | ifElse c t e, ifElse c' t' e' => same c c' && same t t' && same e e'
  | call m xs, call n ys => m == n && sameList xs ys
  | invalid s, invalid t => s == t
  | _, _ => false

def sameList : List (Expr β) → List (Expr β) → Bool
  | [], [] => true
  | x :: xs, y :: ys => same x y && sameList xs ys
  | _, _ => false

end

end Expr

end FiniteVolume
