import LosslessTree.Grammar.Lookahead
import LosslessTree.Node.Kind

/-!
Nodes of a tree. A node has a kind, the range it covers, and its children in the order of the
text. Leaves carry their text, and error nodes what was expected in their place.
-/

namespace LosslessTree

inductive Payload where
  | none
  /-- The text of a leaf. Marks of indentation have none. -/
  | text (text : String)
  | expected (set : Lookahead)
  deriving DecidableEq

inductive Node where
  | mk (kind : NodeKind) (span : Span) (payload : Payload) (children : List Node)

namespace Node

instance : Inhabited Node := ⟨.mk .error default .none []⟩

def kind : Node → NodeKind
  | mk kind _ _ _ => kind

def span : Node → Span
  | mk _ span _ _ => span

def payload : Node → Payload
  | mk _ _ payload _ => payload

def children : Node → List Node
  | mk _ _ _ children => children

def ofToken (token : Token) : Node :=
  mk (.token token.kind) token.span (.text token.text) []

def isToken (node : Node) : Bool := node.kind.isToken

def isError (node : Node) : Bool := node.kind == .error

def tokenKind? (node : Node) : Option TokenKind := node.kind.token?

def tokenText? (node : Node) : Option String :=
  match node.payload with
  | .text text => some text
  | _ => Option.none

def expected? (node : Node) : Option Lookahead :=
  match node.payload with
  | .expected set => some set
  | _ => Option.none

mutual

/-- The node and everything below it, parents before their children. -/
def descendants : Node → List Node
  | mk kind span payload children => mk kind span payload children :: descendantsOf children

def descendantsOf : List Node → List Node
  | [] => []
  | node :: rest => node.descendants ++ descendantsOf rest

end

def count (node : Node) : Nat := node.descendants.length

def text (node : Node) : String := String.join (node.descendants.filterMap tokenText?)

/-- The first leaf that is neither blank nor comment. -/
def firstToken? (node : Node) : Option Node :=
  node.descendants.find? fun node => node.isToken && !node.kind.isTrivia

def label (node : Node) : String := node.kind.name ++ "@" ++ node.span.render

@[simp] theorem kind_mk (kind : NodeKind) (span : Span) (payload : Payload)
    (children : List Node) : (mk kind span payload children).kind = kind := rfl

@[simp] theorem span_mk (kind : NodeKind) (span : Span) (payload : Payload)
    (children : List Node) : (mk kind span payload children).span = span := rfl

@[simp] theorem payload_mk (kind : NodeKind) (span : Span) (payload : Payload)
    (children : List Node) : (mk kind span payload children).payload = payload := rfl

@[simp] theorem children_mk (kind : NodeKind) (span : Span) (payload : Payload)
    (children : List Node) : (mk kind span payload children).children = children := rfl

theorem descendantsOf_eq_flatMap (nodes : List Node) :
    descendantsOf nodes = nodes.flatMap descendants := by
  induction nodes with
  | nil => rfl
  | cons node rest ih => rw [descendantsOf, ih, List.flatMap_cons]

theorem descendants_eq (node : Node) :
    node.descendants = node :: node.children.flatMap descendants := by
  cases node with
  | mk kind span payload children =>
      rw [descendants, descendantsOf_eq_flatMap, children_mk]

end Node

end LosslessTree
