import LosslessTree.Token.Kind

/-!
What surrounds a token: the blocks that indentation keeps open and the brackets that are open,
the innermost first. Each way of closing says how many blocks it closes and what is left.
-/

namespace LosslessTree

namespace Layout

inductive Context where
  /-- A block at a column, opened by `let` or by another word. -/
  | block (column : Nat) (ofLet : Bool)
  | bracket
  deriving DecidableEq, Repr

def Context.isBlock : Context → Bool
  | .block _ _ => true
  | .bracket => false

/-- Whether a block may open at a column. Inside brackets every column is deep enough. -/
def isDeeper (column : Nat) : List Context → Bool
  | .block indent _ :: _ => indent < column
  | _ => true

def closeDeeper (column : Nat) : List Context → Nat × List Context
  | .block indent ofLet :: below =>
    if column < indent then
      let (closed, left) := closeDeeper column below
      (closed + 1, left)
    else (0, .block indent ofLet :: below)
  | contexts => (0, contexts)

def isAt (column : Nat) : List Context → Bool
  | .block indent _ :: _ => column == indent
  | _ => false

/-- Closes blocks up to the innermost one of a `let`, unless a bracket keeps it apart. -/
def closeLet? : List Context → Option (Nat × List Context)
  | .block _ ofLet :: below =>
    if ofLet then some (1, below)
    else (closeLet? below).map fun (closed, left) => (closed + 1, left)
  | _ => none

def closeBracket? : List Context → Option (Nat × List Context)
  | .bracket :: below => some (0, below)
  | .block _ _ :: below => (closeBracket? below).map fun (closed, left) => (closed + 1, left)
  | [] => none

/-- What a token closes by its kind. A closing token without an opening one closes nothing. -/
def closeBy (kind : TokenKind) (contexts : List Context) : Nat × List Context :=
  if kind = .kwIn then (closeLet? contexts).getD (0, contexts)
  else if kind.isClosingBracket then (closeBracket? contexts).getD (0, contexts)
  else (0, contexts)

end Layout

end LosslessTree
