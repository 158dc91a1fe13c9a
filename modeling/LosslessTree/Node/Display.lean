import LosslessTree.Json.Value
import LosslessTree.Node.Basic
import LosslessTree.Text.Quoted

/-!
Showing trees: as lines indented by depth, or as JSON with the members of an object in
alphabetical order.
-/

namespace LosslessTree

def Payload.describe : Payload → String
  | .none => ""
  | .text content => " " ++ Text.quoted content
  | .expected set => " expected " ++ set.describe

namespace Node

mutual

def linesInto (out : String) (depth : Nat) : Node → String
  | mk kind span payload children =>
    let margin := depth.repeat (fun out => out ++ "  ") out
    let line := kind.name ++ "@" ++ span.render ++ payload.describe
    linesOfInto ((margin ++ line).push '\n') (depth + 1) children

def linesOfInto (out : String) (depth : Nat) : List Node → String
  | [] => out
  | node :: rest => linesOfInto (linesInto out depth node) depth rest

end

def render (node : Node) : String := linesInto "" 0 node

end Node

def Span.toJson (span : Span) : Json := .array [.nat span.start, .nat span.stop]

namespace Node

mutual

def toJson : Node → Json
  | mk kind span payload children =>
    let below := if kind.isToken then [] else [("children", Json.array (toJsonList children))]
    let expected := match payload with
      | .expected set => [("expected", Json.str set.describe)]
      | _ => []
    let text := match payload with
      | .text text => [("text", Json.str text)]
      | _ => []
    .record (below ++ expected ++ [("kind", .str kind.name), ("range", span.toJson)] ++ text)

def toJsonList : List Node → List Json
  | [] => []
  | node :: rest => node.toJson :: toJsonList rest

end

end Node

end LosslessTree
