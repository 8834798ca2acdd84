import FiniteVolume.Command
import FiniteVolume.Model.Junction

/-!
Blocks that recreate models: the command of a computed model, or the values of a written one.
-/
namespace FiniteVolume

def Domain.blockTag : Domain → String
  | .node => "node_model"
  | .edge => "edge_model"
  | .triangleEdge => "triangle_edge_model"
  | .tetrahedronEdge => "tetrahedron_edge_model"

def Domain.commandName : Domain → String
  | .node => "node_model"
  | .edge => "edge_model"
  | .triangleEdge | .tetrahedronEdge => "element_model"

variable {β α : Type}

def Field.blockText [Scalar α] : Option (Field α) → String
  | none => "DATA"
  | some (.uniform value _) => "UNIFORM " ++ Scalar.text value
  | some (.vector values) =>
    "DATA" ++ String.join (values.toList.map fun v => "\n" ++ Scalar.text v)

/-- The command that recreates a computed model of a region. A written model has none, nor has one
whose calculation has no text. -/
def Region.modelCommand? (r : Region β α) (d : Domain) (name : String) : Option Command := do
  let m ← r.models.get? d name
  let expression ← m.expression
  let (keyword, place) := match m.contact with
    | some contact => ("contact_" ++ d.commandName, ("contact", some contact))
    | none => (d.commandName, ("region", some r.name))
  return .ofList keyword
    [("device", some r.device), place, ("display_type", some m.display.text), ("name", some name),
      ("equation", some (expression ++ ";"))]

variable [Scalar α]

def Region.modelBlock? (r : Region β α) (d : Domain) (name : String) : Option String := do
  let m ← r.models.get? d name
  let body := match r.modelCommand? d name with
    | some command => command.text
    | none => if m.isComputed then "BUILTIN" else Field.blockText m.value
  return block d.blockTag name body

def Region.modelBlocks (r : Region β α) : String :=
  String.join (Domain.all.flatMap fun d => (r.models.names d).filterMap (r.modelBlock? d))

def Junction.modelBlock? (j : Junction β α) (device name : String) : Option String := do
  let m ← j.models.get? .node name
  let body := match m.expression with
    | some expression =>
      (Command.ofList "interface_model"
        [("device", some device), ("interface", some j.name), ("name", some name),
          ("equation", some (expression ++ ";"))]).text
    | none => Field.blockText m.value
  return block "interface_model" name body

def Junction.modelBlocks (j : Junction β α) (device : String) : String :=
  String.join ((j.models.names .node).filterMap (j.modelBlock? device))

end FiniteVolume
