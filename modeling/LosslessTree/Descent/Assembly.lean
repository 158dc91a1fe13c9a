import LosslessTree.Descent.State
import LosslessTree.Node.Builder

/-!
From events to a tree. A node covers the range from its first child to its last, or nothing at the
place where it started, and is added after its children.
-/

namespace LosslessTree

namespace Builder

def spanOf (builder : Builder) (offset : Nat) (children : List Nat) : Except Fault Span :=
  match children.head?, children.getLast? with
  | some first, some last =>
    match builder.nodes[first]?, builder.nodes[last]? with
    | some (first, _), some (last, _) =>
      match Span.between? first.span.start last.span.stop with
      | some span => .ok span
      | none => .error .reversed
    | _, _ => .error .noNode
  | _, _ => .ok (.empty offset)

def around (builder : Builder) (kind : NodeKind) (payload : Payload) (offset : Nat)
    (children : List Nat) : Except Fault (Nat × Builder) :=
  match builder.spanOf offset children with
  | .error fault => .error fault
  | .ok span => builder.node kind span children payload

end Builder

namespace Descent

/-- A node that has started but not finished, with its children so far. -/
structure Open where
  kind : NodeKind
  payload : Payload
  offset : Nat
  children : Array Nat

structure Assembly where
  builder : Builder
  /-- The open nodes, the innermost first. -/
  stack : List Open
  root : Option Nat

namespace Assembly

def empty : Assembly := ⟨.empty, [], none⟩

def attach (id : Nat) : List Open → List Open
  | [] => []
  | inner :: outer => { inner with children := inner.children.push id } :: outer

def step (tape : Tape) (assembly : Assembly) : Event → Except Fault Assembly
  | .start kind offset =>
    .ok { assembly with stack := ⟨kind, .none, offset, #[]⟩ :: assembly.stack }
  | .error expected offset =>
    .ok { assembly with stack := ⟨.error, .expected expected, offset, #[]⟩ :: assembly.stack }
  | .token index =>
    if index ≤ tape.size then
      let token := tape.tokenAt index
      let (id, builder) := assembly.builder.token token.kind token.span token.text
      .ok { assembly with builder, stack := attach id assembly.stack }
    else .error .noToken
  | .finish =>
    match assembly.stack with
    | [] => .ok assembly
    | inner :: outer =>
      match assembly.builder.around inner.kind inner.payload inner.offset
        inner.children.toList with
      | .error fault => .error fault
      | .ok (id, builder) =>
        .ok ⟨builder, attach id outer, if outer.isEmpty then some id else assembly.root⟩

def finish (assembly : Assembly) : Except Fault Tree :=
  match assembly.root with
  | some root => assembly.builder.finish root
  | none => .error .noNode

end Assembly

def toTree (tape : Tape) (events : List Event) : Except Fault Tree :=
  match events.foldlM (Assembly.step tape) .empty with
  | .error fault => .error fault
  | .ok assembly => assembly.finish

end Descent

end LosslessTree
