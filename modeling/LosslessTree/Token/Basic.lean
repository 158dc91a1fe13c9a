import LosslessTree.Text.Span
import LosslessTree.Token.Kind

/-!
Tokens: a kind, the range it covers and its text. A flawed token says what is wrong with it.
-/

namespace LosslessTree

structure Token where
  kind : TokenKind
  span : Span
  text : String
  flaw : Option String := none
  deriving DecidableEq, Inhabited

namespace Token

def zeroWidth (kind : TokenKind) (offset : Nat) : Token := ⟨kind, .empty offset, "", none⟩

def eof (offset : Nat) : Token := zeroWidth .eof offset

/-- Tokens that stand for indentation and cover no text. -/
def isVirtual (token : Token) : Bool := token.span.isEmpty && token.kind != .eof

def isTrivia (token : Token) : Bool := token.kind.isTrivia

def covering (kind : TokenKind) (offset : Nat) (text : String) : Token :=
  ⟨kind, ⟨offset, offset + text.utf8ByteSize, Nat.le_add_right _ _⟩, text, none⟩

end Token

end LosslessTree
