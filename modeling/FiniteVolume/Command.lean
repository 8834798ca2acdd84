import FiniteVolume.Ordered.Table

/-!
Commands: a keyword with options in order. A block of text brackets a body by its kind and name.
-/
namespace FiniteVolume

structure Command where
  name : String
  options : Table String String := ∅

namespace Command

/-- Set an option. One set before keeps its position. -/
def option (c : Command) (key value : String) : Command :=
  { c with options := c.options.insert key value }

/-- Set an option that may have no value, which is written as an empty one. -/
def slot (c : Command) (key : String) (value : Option String) : Command :=
  c.option key (value.getD "")

def ofList (name : String) (options : List (String × Option String)) : Command :=
  options.foldl (fun c (key, value) => c.slot key value) { name }

def get? (c : Command) (key : String) : Option String := c.options.get? key

/-- One option: a dash, the key and the value in quotes. -/
def optionText (key value : String) : String := " -" ++ key ++ " \"" ++ value ++ "\""

def text (c : Command) : String :=
  "COMMAND " ++ c.name ++ String.join (c.options.toList.map fun (key, value) => optionText key value)

end Command

def block (tag name body : String) : String :=
  "begin_" ++ tag ++ " \"" ++ name ++ "\"\n" ++ body ++ "\nend_" ++ tag ++ "\n\n"

end FiniteVolume
