import LosslessTree.Token.Lexeme.Basic

/-!
Strings and characters in quotes. Only their extent is found here: inside a string a backslash
keeps the next character from ending it, and a gap is white space between two backslashes.
-/

namespace LosslessTree

namespace Lexeme

open Text

/-- Where reading stands inside a string. -/
inductive StringSpot where
  | plain
  | escaped
  | gap
  deriving DecidableEq

/-- How many more characters a string takes, and its flaw if it does not end well. -/
def stringEnd : StringSpot → List Char → Option Flaw × Nat
  | .gap, [] => (some .openGap, 0)
  | _, [] => (some .textEndInString, 0)
  | spot, c :: rest =>
    let further (spot : StringSpot) : Option Flaw × Nat :=
      let (flaw, length) := stringEnd spot rest
      (flaw, length + 1)
    match spot with
    | .gap =>
      if isBlank c then further .gap
      else if c = '\\' then further .plain
      else (some .openGap, 0)
    | .escaped => if isLineEnd c then (some .lineEndInString, 1) else further .plain
    | .plain =>
      if c = '\\' then further (if rest.head?.any isBlank then .gap else .escaped)
      else if c = '"' then (none, 1)
      else if isLineEnd c then (some .lineEndInString, 1)
      else further .plain

def string (rest : List Char) : Lexeme :=
  match stringEnd .plain rest with
  | (none, length) => ofKind .string length
  | (some flaw, length) => ofFlaw flaw length

def closed (rest : List Char) (length : Nat) : Lexeme :=
  if (rest.drop length).head? = some '\'' then ofKind .char (length + 1)
  else ofFlaw .openCharacter length

def character (rest : List Char) : Lexeme :=
  match rest with
  | [] => ofFlaw .emptyCharacter 0
  | '\\' :: [] => ofFlaw .openCharacter 1
  | '\\' :: _ :: tail =>
    closed rest (2 + runLength (fun c => c != '\'' && !isLineEnd c) tail)
  | c :: _ =>
    if c = '\'' ∨ isLineEnd c then ofFlaw .emptyCharacter 1 else closed rest 1

end Lexeme

end LosslessTree
