import LosslessTree.Proofs.Node.Builder

/-!
What a tree says apart from blanks, comments and places: the kinds of its nodes, what error nodes
expected, and of the texts of its leaves as much as a reading takes from them.
-/

namespace LosslessTree

inductive Outline (α : Type) where
  | leaf (kind : TokenKind) (text : α)
  | node (kind : NodeKind) (expected : Option Lookahead) (children : List (Outline α))

variable {α : Type}

def Token.outline (read : String → α) (token : Token) : Outline α :=
  .leaf token.kind (read token.text)

namespace Node

def isBlank (node : Node) : Bool := node.kind.isTrivia && node.tokenText?.isSome

mutual

def outline (read : String → α) : Node → Outline α
  | mk kind _ payload children =>
    match kind, payload with
    | .token kind, .text text => .leaf kind (read text)
    | kind, .expected set => .node kind (some set) (outlines read children)
    | kind, _ => .node kind none (outlines read children)

def outlines (read : String → α) : List Node → List (Outline α)
  | [] => []
  | node :: rest =>
    if node.isBlank then outlines read rest else outline read node :: outlines read rest

end

variable (read : String → α)

@[simp] theorem outline_ofToken (token : Token) :
    (ofToken token).outline read = token.outline read := by
  rw [ofToken, outline, Token.outline]

theorem outline_around (kind : NodeKind) (offset : Nat) (children : List Node) :
    (around kind .none offset children).outline read =
      .node kind none (outlines read children) := by
  cases kind <;> rfl

theorem outline_around_expected (kind : NodeKind) (set : Lookahead) (offset : Nat)
    (children : List Node) :
    (around kind (.expected set) offset children).outline read =
      .node kind (some set) (outlines read children) := by
  cases kind <;> rfl

@[simp] theorem isBlank_ofToken (token : Token) : (ofToken token).isBlank = token.isTrivia := by
  simp [isBlank, ofToken, tokenText?, NodeKind.isTrivia, Token.isTrivia]

theorem isBlank_around {payload : Payload} (hpayload : ∀ text, payload ≠ .text text)
    (kind : NodeKind) (offset : Nat) (children : List Node) :
    (around kind payload offset children).isBlank = false := by
  cases payload with
  | text text => exact absurd rfl (hpayload text)
  | none => simp [isBlank, around, tokenText?]
  | expected set => simp [isBlank, around, tokenText?]

theorem outlines_eq (nodes : List Node) :
    outlines read nodes = (nodes.filter (!·.isBlank)).map (outline read) := by
  induction nodes with
  | nil => simp [outlines]
  | cons node rest ih =>
      unfold outlines
      cases hblank : node.isBlank with
      | true => simpa [hblank] using ih
      | false => simpa [hblank] using ih

theorem outlines_append (nodes more : List Node) :
    outlines read (nodes ++ more) = outlines read nodes ++ outlines read more := by
  simp only [outlines_eq, List.filter_append, List.map_append]

theorem outlines_ofTokens (tokens : List Token) :
    outlines read (tokens.map ofToken) =
      (tokens.filter (!·.isTrivia)).map (Token.outline read) := by
  simp only [outlines_eq, List.filter_map, List.map_map, Function.comp_def, isBlank_ofToken,
    outline_ofToken]

end Node

end LosslessTree
