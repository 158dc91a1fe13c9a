import LosslessTree.Node.Cursor

/-!
Visitors act on one node by its kind. A kind without an action of its own, and every kind that is
no part of the language, gets the action for any element.
-/

namespace LosslessTree

inductive Visit where
  | element
  | token
  | error
  | construct (construct : Construct)
  deriving DecidableEq, Repr

namespace Visit

def name : Visit → String
  | element => "visit_element"
  | token => "visit_token"
  | error => "visit_error"
  | construct c => "visit_" ++ Construct.snakeCase c.name

def ofKind : NodeKind → Visit
  | .token _ => token
  | .error => error
  | .construct c => construct c
  | .extension _ => element

end Visit

/-- A state-changing action for any element, and more special ones. -/
structure Visitor (σ : Type) where
  element : Cursor → σ → σ
  special : Visit → Option (Cursor → σ → σ)

namespace Visitor

/-- The special action for a kind of node, or else the one for any element. -/
def action (visitor : Visitor σ) (kind : NodeKind) : Cursor → σ → σ :=
  match Visit.ofKind kind with
  | .element => visitor.element
  | visit => (visitor.special visit).getD visitor.element

/-- Acts on a node, and not on those below it. -/
def accept (visitor : Visitor σ) (cursor : Cursor) (state : σ) : σ :=
  visitor.action cursor.kind cursor state

end Visitor

end LosslessTree
