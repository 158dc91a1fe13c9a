import LosslessTree.Descent.Assembly
import LosslessTree.Proofs.Words.Shape
import LosslessTree.Proofs.Words.Stream

/-!
From shapes to a tree: each position becomes its token, followed by the blanks and comments that
stand behind it. Inside an error node that holds for all tokens but the last one, whose blanks
follow the error node itself. A node covers the range from its first child to its last, and is
added after its children.
-/

namespace LosslessTree

namespace Builder

def leaves (builder : Builder) : List Token → List Nat × Builder
  | [] => ([], builder)
  | token :: rest =>
    let (id, builder) := builder.token token.kind token.span token.text
    let (ids, builder) := builder.leaves rest
    (id :: ids, builder)

end Builder

namespace Shape

/-- The tokens of some words up to the last significant one, and those after it. -/
def splitLast : List Word → List Token × List Token
  | [] => ([], [])
  | [word] => ([word.token], word.trivia)
  | word :: rest =>
    let (inner, after) := splitLast rest
    (word.token :: word.trivia ++ inner, after)

mutual

def build (stream : Stream) : Shape → Builder → Except Fault (List Nat × Builder)
  | token position, builder =>
    match stream.words[position]? with
    | some word => .ok (builder.leaves (word.token :: word.trivia))
    | none => .error .noToken
  | node kind position children, builder =>
    match buildList stream children builder with
    | .error fault => .error fault
    | .ok (ids, builder) =>
      match builder.around kind .none (stream.offsetAt position) ids with
      | .error fault => .error fault
      | .ok (id, builder) => .ok ([id], builder)
  | error expected position extent, builder =>
    if stream.size < position + extent then .error .noToken
    else
      let (inner, after) :=
        splitLast (stream.words.extract position (position + extent)).toList
      let (ids, builder) := builder.leaves inner
      match builder.around .error (.expected expected) (stream.offsetAt position) ids with
      | .error fault => .error fault
      | .ok (id, builder) =>
        let (more, builder) := builder.leaves after
        .ok (id :: more, builder)

def buildList (stream : Stream) : List Shape → Builder → Except Fault (List Nat × Builder)
  | [], builder => .ok ([], builder)
  | shape :: rest, builder =>
    match build stream shape builder with
    | .error fault => .error fault
    | .ok (ids, builder) =>
      match buildList stream rest builder with
      | .error fault => .error fault
      | .ok (more, builder) => .ok (ids ++ more, builder)

end

def toTree (stream : Stream) (kind : NodeKind) (shapes : List Shape) : Except Fault Tree :=
  let (leading, builder) := Builder.empty.leaves stream.leading
  match buildList stream shapes builder with
  | .error fault => .error fault
  | .ok (ids, builder) =>
    match builder.around kind .none stream.start (leading ++ ids) with
    | .error fault => .error fault
    | .ok (root, builder) => builder.finish root

end Shape

end LosslessTree
