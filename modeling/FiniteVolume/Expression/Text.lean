import FiniteVolume.Expression.Tree

/-!
The text of an expression, in two forms. The plain form recreates it in a command. The tagged form
marks parameters by a dollar sign, so that a parameter never reads like a model of the same name; it
is the key under which an evaluation remembers results.
-/
namespace FiniteVolume.Expr

variable {β : Type} [BaseScalar β]

def operatorSymbol? (name : String) : Option String :=
  if name = "pow" then some "^"
  else if name ∈ ["&&", "||", "==", "!=", "<", "<=", ">", ">="] then some name
  else none

mutual

/-- The text of an expression; `tagged` marks parameters. -/
def render (tagged : Bool) : Expr β → String
  | constant v => BaseScalar.literalText v
  | parameter n => if tagged then "$" ++ n else n
  | model n => n
  | sum xs => "(" ++ " + ".intercalate (renderList tagged xs) ++ ")"
  | product xs => "(" ++ " * ".intercalate (renderList tagged xs) ++ ")"
  | ifThen c t => "if(" ++ render tagged c ++ ", " ++ render tagged t ++ ")"
  | ifElse c t e =>
    "ifelse(" ++ render tagged c ++ ", " ++ render tagged t ++ ", " ++ render tagged e ++ ")"
  | call name args =>
    let texts := renderList tagged args
    match texts, operatorSymbol? name with
    | [x, y], some symbol => "(" ++ x ++ " " ++ symbol ++ " " ++ y ++ ")"
    | _, _ =>
      if name = "!" ∧ texts.length = 1 then "(!" ++ String.join texts ++ ")"
      else name ++ "(" ++ ", ".intercalate texts ++ ")"
  | invalid s => s

def renderList (tagged : Bool) : List (Expr β) → List String
  | [] => []
  | x :: xs => render tagged x :: renderList tagged xs

end

def text (e : Expr β) : String := e.render false

/-- The text under which the result is remembered. -/
def key (e : Expr β) : String := e.render true

end FiniteVolume.Expr
