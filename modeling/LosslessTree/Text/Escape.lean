import LosslessTree.Text.Blank
import LosslessTree.Token.Lexeme.Number

/-!
Escapes in strings and character literals. After a backslash stands a letter or a mark, a control
character by caret or by name, or a number in base ten, eight or sixteen. Two escapes denote
nothing: an ampersand, and a gap of white space that a second backslash ends.
-/

namespace LosslessTree

namespace Text

def controlNames : List (String × Nat) := [
  ("NUL", 0), ("SOH", 1), ("STX", 2), ("ETX", 3), ("EOT", 4), ("ENQ", 5), ("ACK", 6), ("BEL", 7),
  ("BS", 8), ("HT", 9), ("LF", 10), ("VT", 11), ("FF", 12), ("CR", 13), ("SO", 14), ("SI", 15),
  ("DLE", 16), ("DC1", 17), ("DC2", 18), ("DC3", 19), ("DC4", 20), ("NAK", 21), ("SYN", 22),
  ("ETB", 23), ("CAN", 24), ("EM", 25), ("SUB", 26), ("ESC", 27), ("FS", 28), ("GS", 29),
  ("RS", 30), ("US", 31), ("SP", 32), ("DEL", 127)]

def singleEscape? : Char → Option Char
  | 'n' => some '\n'
  | 't' => some '\t'
  | 'r' => some '\r'
  | 'a' => some '\x07'
  | 'b' => some '\x08'
  | 'f' => some '\x0c'
  | 'v' => some '\x0b'
  | '\\' => some '\\'
  | '"' => some '"'
  | '\'' => some '\''
  | _ => none

/-- The character with a code point; there is none for halves of surrogate pairs. -/
def charOfCode? (code : Nat) : Option Char :=
  if code.isValidChar then some (Char.ofNat code) else none

def digitValue (c : Char) : Nat :=
  if Lexeme.isDigitIn 10 c then c.toNat - '0'.toNat
  else (if 'a' ≤ c then c.toNat - 'a'.toNat else c.toNat - 'A'.toNat) + 10

def valueOfDigits (base : Nat) (digits : List Char) : Nat :=
  digits.foldl (fun value c => value * base + digitValue c) 0

/-- The character of the longest run of digits at the front, and the length of the run. -/
def numericEscape? (base : Nat) (text : List Char) : Option (Char × Nat) :=
  match text.takeWhile (Lexeme.isDigitIn base) with
  | [] => none
  | digits => (charOfCode? (valueOfDigits base digits)).map (·, digits.length)

/-- What the escape after a backslash denotes, and how many characters it takes. -/
def escape? (text : List Char) : Option (Option Char × Nat) :=
  match text with
  | [] => none
  | c :: rest =>
    match singleEscape? c with
    | some denoted => some (some denoted, 1)
    | none =>
      if c = '&' then some (none, 1)
      else if c = '^' then
        match rest with
        | control :: _ =>
          if '@' ≤ control ∧ control ≤ '_' then
            some (some (Char.ofNat (control.toNat - '@'.toNat)), 2)
          else none
        | [] => none
      else if c = 'x' ∨ c = 'o' then
        (numericEscape? (if c = 'x' then 16 else 8) rest).map fun (denoted, length) =>
          (some denoted, length + 1)
      else if isDecimalDigit c then
        (numericEscape? 10 text).map fun (denoted, length) => (some denoted, length)
      else if isBlank c then
        let gap := runLength isBlank text
        if (text.drop gap).head? = some '\\' then some (none, gap + 1) else none
      else
        (controlNames.find? fun (name, _) => name.toList.isPrefixOf text).map fun (name, code) =>
          (some (Char.ofNat code), name.length)

/-- The text with its escapes replaced by what they denote; none if one of them is malformed. -/
def unescape? (text : List Char) : Option (List Char) :=
  match text with
  | [] => some []
  | c :: rest =>
    if c = '\\' then
      match escape? rest with
      | none => none
      | some (denoted, length) => (unescape? (rest.drop length)).map (denoted.toList ++ ·)
    else (unescape? rest).map (c :: ·)
termination_by text.length
decreasing_by all_goals (simp only [List.length_drop, List.length_cons]; omega)

end Text

end LosslessTree
