import LosslessTree.Token.Lexeme.Comment
import LosslessTree.Token.Lexeme.Name
import LosslessTree.Token.Lexeme.Number
import LosslessTree.Token.Lexeme.Quotation

/-!
The lexeme that begins a text. Its first character decides its class; the earlier of two classes
that share a character wins.
-/

namespace LosslessTree

namespace Lexeme

open Text

def punctuation? : Char → Option TokenKind
  | '(' => some .leftParen
  | ')' => some .rightParen
  | '[' => some .leftBracket
  | ']' => some .rightBracket
  | '\x7b' => some .leftBrace
  | '\x7d' => some .rightBrace
  | ',' => some .comma
  | ';' => some .semi
  | '\x60' => some .backquote
  | _ => none

def blanks (rest : List Char) : Lexeme := ofKind .whitespace (runLength isBlank rest)

def commentary? (first : Char) (rest : List Char) : Option Lexeme :=
  match first, rest with
  | '-', rest => if beginsLineComment rest then some (lineComment rest) else none
  | '\x7b', '-' :: '#' :: rest => some (pragma rest)
  | '\x7b', '-' :: rest => some (blockComment rest)
  | _, _ => none

def first (c : Char) (rest : List Char) : Lexeme :=
  if isBlank c then blanks rest
  else match commentary? c rest with
    | some lexeme => lexeme
    | none =>
      if isDecimalDigit c then number c rest
      else if isUppercase c then constructorName rest
      else if isVariableStart c then variableName c rest
      else if c = '"' then string rest
      else if c = '\'' then character rest
      else match punctuation? c with
        | some kind => ofKind kind 0
        | none => if isSymbol c then operator c rest else ofFlaw .strayCharacter 0

end Lexeme

end LosslessTree
