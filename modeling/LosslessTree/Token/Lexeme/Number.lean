import LosslessTree.Token.Lexeme.Basic

/-!
Numbers: decimal ones with an optional fraction and exponent, and whole ones in base 16, 8 or 2.
Underscores may stand between the digits of a whole part. A dot or an exponent mark that no
digits follow is not part of the number, so a range keeps its dots.
-/

namespace LosslessTree

namespace Lexeme

open Text

def isDigitIn (base : Nat) (c : Char) : Bool :=
  match c with
  | 'a' | 'A' => 10 < base
  | 'b' | 'B' => 11 < base
  | 'c' | 'C' => 12 < base
  | 'd' | 'D' => 13 < base
  | 'e' | 'E' => 14 < base
  | 'f' | 'F' => 15 < base
  | c => isDecimalDigit c && c.toNat - '0'.toNat < base

def baseOfLetter? : Char → Option Nat
  | 'x' | 'X' => some 16
  | 'o' | 'O' => some 8
  | 'b' | 'B' => some 2
  | _ => none

def fractionLength : List Char → Nat
  | '.' :: rest =>
    match runLength isDecimalDigit rest with
    | 0 => 0
    | digits + 1 => digits + 2
  | _ => 0

def exponentLength : List Char → Nat
  | [] => 0
  | mark :: rest =>
    if mark = 'e' ∨ mark = 'E' then
      let sign := if rest.head? = some '+' ∨ rest.head? = some '-' then 1 else 0
      match runLength isDecimalDigit (rest.drop sign) with
      | 0 => 0
      | digits + 1 => 1 + sign + (digits + 1)
    else 0

def decimal (rest : List Char) : Lexeme :=
  let whole := runLength (fun c => isDecimalDigit c || c == '_') rest
  let fraction := fractionLength (rest.drop whole)
  let exponent := exponentLength (rest.drop (whole + fraction))
  ofKind (if fraction = 0 ∧ exponent = 0 then .integer else .float) (whole + fraction + exponent)

def based (base : Nat) (rest : List Char) : Lexeme :=
  match runLength (fun c => isDigitIn base c || c == '_') rest with
  | 0 => ofFlaw .missingDigits 1
  | digits + 1 => ofKind .integer (1 + (digits + 1))

def number (first : Char) (rest : List Char) : Lexeme :=
  match first, rest with
  | '0', letter :: digits =>
    match baseOfLetter? letter with
    | some base => based base digits
    | none => decimal rest
  | _, _ => decimal rest

end Lexeme

end LosslessTree
