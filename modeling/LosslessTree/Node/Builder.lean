import LosslessTree.Error
import LosslessTree.Node.Basic

/-!
Putting trees together from their leaves. A parent covers its children, who stand in order and
apart from each other. Nodes wait under a number until a parent takes them, which happens once.
-/

namespace LosslessTree

namespace Node

/-- Checks that a child lies inside its parent and not before the end of its sibling. -/
def checkChild (kind : NodeKind) (span : Span) (siblingStop : Nat) (child : Node) :
    Except Fault Unit :=
  if !span.contains child.span then .error (.outside kind span child.kind child.span)
  else if child.span.start < siblingStop then .error (.overlap child.kind child.span kind)
  else .ok ()

def checkChildren (kind : NodeKind) (span : Span) : (siblingStop : Nat) → List Node →
    Except Fault Unit
  | _, [] => .ok ()
  | siblingStop, child :: rest =>
    match checkChild kind span siblingStop child with
    | .error fault => .error fault
    | .ok () => checkChildren kind span child.span.stop rest

end Node

structure Tree where
  root : Node
  size : Nat

namespace Tree

def ofRoot (root : Node) : Tree := ⟨root, root.count⟩

end Tree

/-- The nodes made so far, and whether each has a parent. -/
structure Builder where
  nodes : Array (Node × Bool)

namespace Builder

def empty : Builder := ⟨#[]⟩

def push (builder : Builder) (node : Node) : Nat × Builder :=
  (builder.nodes.size, ⟨builder.nodes.push (node, false)⟩)

def token (builder : Builder) (kind : TokenKind) (span : Span) (text : String) : Nat × Builder :=
  builder.push (.mk (.token kind) span (.text text) [])

def take (kind : NodeKind) (span : Span) : (siblingStop : Nat) → Builder → List Nat →
    Except Fault (List Node × Builder)
  | _, builder, [] => .ok ([], builder)
  | siblingStop, builder, id :: rest =>
    match builder.nodes[id]? with
    | none => .error .noNode
    | some (child, hasParent) =>
      match Node.checkChild kind span siblingStop child with
      | .error fault => .error fault
      | .ok () =>
        if hasParent then .error (.taken child.kind)
        else
          let builder := ⟨builder.nodes.setIfInBounds id (child, true)⟩
          match take kind span child.span.stop builder rest with
          | .error fault => .error fault
          | .ok (children, builder) => .ok (child :: children, builder)

def node (builder : Builder) (kind : NodeKind) (span : Span) (children : List Nat)
    (payload : Payload) : Except Fault (Nat × Builder) :=
  match take kind span span.start builder children with
  | .error fault => .error fault
  | .ok (children, builder) => .ok (builder.push (.mk kind span payload children))

/-- The tree below a node that no other has taken. -/
def finish (builder : Builder) (root : Nat) : Except Fault Tree :=
  match builder.nodes[root]? with
  | none => .error .noNode
  | some (_, true) => .error .rootTaken
  | some (node, false) => .ok ⟨node, builder.nodes.size⟩

end Builder

end LosslessTree
