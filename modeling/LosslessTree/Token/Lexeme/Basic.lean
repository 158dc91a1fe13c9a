import LosslessTree.Text.Alphanumeric
import LosslessTree.Text.Blank
import LosslessTree.Text.Lowercase
import LosslessTree.Text.Uppercase
import LosslessTree.Token.Kind

/-!
A lexeme is what one token is read as: its kind, or what is wrong with it, and how many characters
it takes beyond its first one. Every character begins some lexeme, so reading always advances.
-/

namespace LosslessTree

inductive Flaw where
  | strayCharacter
  | openComment
  | openPragma
  | missingDigits
  | openGap
  | lineEndInString
  | textEndInString
  | emptyCharacter
  | openCharacter
  deriving DecidableEq, Repr

def Flaw.message : Flaw → String
  | .strayCharacter => "Unexpected character"
  | .openComment => "Unterminated block comment"
  | .openPragma => "Unterminated pragma"
  | .missingDigits => "Missing digits after radix prefix"
  | .openGap => "Unterminated string gap"
  | .lineEndInString => "End of line in string literal"
  | .textEndInString => "End of file in string literal"
  | .emptyCharacter => "Empty character literal"
  | .openCharacter => "Unterminated character literal"

structure Lexeme where
  outcome : Except Flaw TokenKind
  more : Nat

namespace Lexeme

def ofKind (kind : TokenKind) (more : Nat) : Lexeme := ⟨.ok kind, more⟩

def ofFlaw (flaw : Flaw) (more : Nat) : Lexeme := ⟨.error flaw, more⟩

def kind (lexeme : Lexeme) : TokenKind :=
  match lexeme.outcome with
  | .ok kind => kind
  | .error _ => .flawed

def flaw? (lexeme : Lexeme) : Option Flaw :=
  match lexeme.outcome with
  | .ok _ => none
  | .error flaw => some flaw

end Lexeme

namespace Text

def runLength (test : Char → Bool) (text : List Char) : Nat := (text.takeWhile test).length

def isLineEnd (c : Char) : Bool := c == '\r' || c == '\n'

def isSymbol (c : Char) : Bool :=
  ['!', '#', '$', '%', '&', '*', '+', '.', '/', '<', '=', '>', '?', '@', '\\', '^', '|', '-',
    '~', ':'].contains c

def isNameChar (c : Char) : Bool := isAlphanumeric c || c == '_' || c == '\''

def isVariableStart (c : Char) : Bool := isLowercase c || c == '_'

def isDecimalDigit (c : Char) : Bool := '0' ≤ c && c ≤ '9'

theorem runLength_le (test : Char → Bool) (text : List Char) :
    runLength test text ≤ text.length :=
  (List.takeWhile_sublist test).length_le

end Text

end LosslessTree
