import LosslessTree.Grammar.Basic
import LosslessTree.Node.Cursor

/-!
A node seen through the production of its kind: its children by kind, as many as the production
permits. Asking for children in another multiplicity than the production's is an error.
-/

namespace LosslessTree

structure Projection where
  cursor : Cursor
  production : Grammar.Production

inductive Accessed where
  | many (children : List Cursor)
  | optional (child : Option Cursor)
  | one (child : Cursor)

namespace Projection

def of (grammar : Grammar) (cursor : Cursor) : Except Error Projection :=
  match grammar.production cursor.kind with
  | .ok production => .ok ⟨cursor, production⟩
  | .error error => .error error

def childrenOf (projection : Projection) (child : NodeKind) : List Cursor :=
  projection.cursor.children.filter (·.kind = child)

def mismatch (projection : Projection) (child : NodeKind) (requested : Grammar.Multiplicity) :
    Error :=
  .wrongAccessor projection.cursor.kind child requested (projection.production.accessor? child)

def violation (projection : Projection) (child : NodeKind) (found : Nat) : Error :=
  .childCount projection.cursor.kind child projection.cursor.focus.span found

/-- Gives a result only if the production permits the child in the multiplicity asked for. -/
def guarded (projection : Projection) (child : NodeKind) (requested : Grammar.Multiplicity)
    (result : Except Error α) : Except Error α :=
  if projection.production.accessor? child = some requested then result
  else .error (projection.mismatch child requested)

def list (projection : Projection) (child : NodeKind) : Except Error (List Cursor) :=
  projection.guarded child .zeroOrMore (.ok (projection.childrenOf child))

def optional (projection : Projection) (child : NodeKind) : Except Error (Option Cursor) :=
  projection.guarded child .zeroOrOne <|
    match projection.childrenOf child with
    | [] => .ok none
    | [found] => .ok (some found)
    | found => .error (projection.violation child found.length)

def one (projection : Projection) (child : NodeKind) : Except Error Cursor :=
  projection.guarded child .exactlyOne <|
    match projection.childrenOf child with
    | [found] => .ok found
    | found => .error (projection.violation child found.length)

def get (projection : Projection) (child : NodeKind) : Except Error Accessed :=
  match projection.production.accessor? child with
  | some .exactlyOne => (projection.one child).map .one
  | some .zeroOrOne => (projection.optional child).map .optional
  | some .zeroOrMore | some .oneOrMore => (projection.list child).map .many
  | none => .error (projection.mismatch child .zeroOrMore)

end Projection

end LosslessTree
