import LosslessTree.Node.Basic

/-!
A cursor is a node in its tree: it knows the nodes above it, and as which child it stands in each.
Two cursors of one tree are at the same place when they stand at the same path from the root.
-/

namespace LosslessTree

structure Cursor where
  focus : Node
  /-- The parent first, the root last, each with the position of the child below it. -/
  above : List (Nat × Node)

namespace Cursor

def ofRoot (root : Node) : Cursor := ⟨root, []⟩

def kind (cursor : Cursor) : NodeKind := cursor.focus.kind

def path (cursor : Cursor) : List Nat := (cursor.above.map (·.1)).reverse

def isSamePlace (left right : Cursor) : Bool := left.path == right.path

/-- The cursors of siblings, the first of which has a position. -/
def siblings (parent : Cursor) : (position : Nat) → List Node → List Cursor
  | _, [] => []
  | position, node :: rest =>
    ⟨node, (position, parent.focus) :: parent.above⟩ :: siblings parent (position + 1) rest

def children (cursor : Cursor) : List Cursor := cursor.siblings 0 cursor.focus.children

def childNodes (cursor : Cursor) : List Cursor :=
  cursor.children.filter fun child => !child.focus.isToken

def parent? (cursor : Cursor) : Option Cursor :=
  match cursor.above with
  | [] => none
  | (_, node) :: above => some ⟨node, above⟩

def ancestors (cursor : Cursor) : List Cursor := go cursor.above
where
  go : List (Nat × Node) → List Cursor
    | [] => []
    | (_, node) :: above => ⟨node, above⟩ :: go above

mutual

def descendantsFrom (above : List (Nat × Node)) : Node → List Cursor
  | .mk kind span payload children =>
    let node := Node.mk kind span payload children
    ⟨node, above⟩ :: siblingsFrom node above 0 children

def siblingsFrom (parent : Node) (above : List (Nat × Node)) (position : Nat) :
    List Node → List Cursor
  | [] => []
  | node :: rest =>
    descendantsFrom ((position, parent) :: above) node
      ++ siblingsFrom parent above (position + 1) rest

end

def descendants (cursor : Cursor) : List Cursor := descendantsFrom cursor.above cursor.focus

def firstToken? (cursor : Cursor) : Option Cursor :=
  cursor.descendants.find? fun cursor => cursor.focus.isToken && !cursor.kind.isTrivia

def follow? (cursor : Cursor) : List Nat → Option Cursor
  | [] => some cursor
  | position :: rest =>
    match cursor.children[position]? with
    | some child => child.follow? rest
    | none => none

end Cursor

def Node.at? (root : Node) (path : List Nat) : Option Cursor := (Cursor.ofRoot root).follow? path

end LosslessTree
