import LosslessTree.Grammar.Lookahead
import LosslessTree.Node.Kind

/-!
What parsing over words finds out, told by their positions: the shape of the tree, and a report for
each place that does not fit. Texts and ranges are added afterwards.
-/

namespace LosslessTree

inductive Shape where
  | token (position : Nat)
  | node (kind : NodeKind) (position : Nat) (children : List Shape)
  /-- Tokens that do not fit, from a position on; none of them where something is missing. -/
  | error (expected : Lookahead) (position extent : Nat)
  deriving Inhabited

inductive Complaint where
  | unexpected
  | tooDeep
  | missing (what : String)
  deriving DecidableEq

/-- A complaint about some tokens, or about the place before a token. -/
structure Report where
  position : Nat
  extent : Nat
  complaint : Complaint
  expected : Lookahead
  deriving DecidableEq

end LosslessTree
