import LosslessTree.Error
import LosslessTree.Grammar.Lookahead
import LosslessTree.Json.Value
import LosslessTree.Node.Display

/-!
Problems of a text: where they are, what they are, and what was expected instead. Each has its
error node in the tree.
-/

namespace LosslessTree

structure Problem where
  span : Span
  message : String
  expected : Lookahead
  deriving DecidableEq

namespace Problem

def render (problem : Problem) : String := problem.span.render ++ ":" ++ problem.message

def toJson (problem : Problem) : Json :=
  .record [("expected", .str problem.expected.describe), ("message", .str problem.message),
    ("range", problem.span.toJson)]

end Problem

end LosslessTree
