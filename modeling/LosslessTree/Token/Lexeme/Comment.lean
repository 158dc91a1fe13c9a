import LosslessTree.Token.Lexeme.Basic

/-!
Comments and pragmas. A line comment is a run of two or more dashes that no further operator
character continues, and goes on to the end of the line. Block comments nest. A pragma ends at
the first of its closing marks.
-/

namespace LosslessTree

namespace Lexeme

open Text

/-- Whether a dash followed by this text begins a line comment. -/
def beginsLineComment (rest : List Char) : Bool :=
  rest.head? == some '-' && !(rest.dropWhile (· == '-')).head?.any isSymbol

def lineComment (rest : List Char) : Lexeme :=
  ofKind .lineComment (runLength (!isLineEnd ·) rest)

/-- Characters up to and with the end of a block comment that lies inside `depth` others. -/
def commentLength? : (depth : Nat) → List Char → Option Nat
  | _, [] => none
  | depth, c :: rest =>
    match c, rest with
    | '\x7b', '-' :: rest => (commentLength? (depth + 1) rest).map (· + 2)
    | '-', '\x7d' :: rest =>
      match depth with
      | 0 => some 2
      | depth + 1 => (commentLength? depth rest).map (· + 2)
    | _, rest => (commentLength? depth rest).map (· + 1)

def blockComment (rest : List Char) : Lexeme :=
  match commentLength? 0 rest with
  | some length => ofKind .blockComment (1 + length)
  | none => ofFlaw .openComment (1 + rest.length)

def pragmaLength? : List Char → Option Nat
  | [] => none
  | c :: rest =>
    match c, rest with
    | '#', '-' :: '\x7d' :: _ => some 3
    | _, rest => (pragmaLength? rest).map (· + 1)

def pragma (rest : List Char) : Lexeme :=
  match pragmaLength? rest with
  | some length => ofKind .pragma (2 + length)
  | none => ofFlaw .openPragma (2 + rest.length)

end Lexeme

end LosslessTree
