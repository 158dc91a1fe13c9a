import LosslessTree.Json.Value

/-!
Reading JSON. A text is read when it is exactly one value between blanks. The reader takes the
text from the front: each step gives the value it found and what is left.
-/

namespace LosslessTree

namespace Json

namespace Reader

def skipBlanks (text : List Char) : List Char :=
  text.dropWhile fun c => c == ' ' || c == '\t' || c == '\n' || c == '\r'

/-- What follows a word that the text must begin with. -/
def after? : (word : List Char) → (text : List Char) → Option (List Char)
  | [], text => some text
  | _ :: _, [] => none
  | c :: word, d :: text => if c = d then after? word text else none

def isDigit (c : Char) : Bool := '0' ≤ c && c ≤ '9'

def hexValue? (c : Char) : Option Nat :=
  if isDigit c then some (c.toNat - '0'.toNat)
  else if 'a' ≤ c && c ≤ 'f' then some (c.toNat - 'a'.toNat + 10)
  else if 'A' ≤ c && c ≤ 'F' then some (c.toNat - 'A'.toNat + 10)
  else none

/-- A piece of a string: a character, or half of a surrogate pair from an escape. -/
inductive Piece where
  | char (c : Char)
  | half (unit : Nat)

/-- The characters of a string, none when half of a pair stands alone. -/
def join? : List Piece → Option (List Char)
  | [] => some []
  | .char c :: rest => (join? rest).map (c :: ·)
  | .half high :: .half low :: rest =>
    if high < 0xDC00 ∧ 0xDC00 ≤ low then
      (join? rest).map (Char.ofNat (0x10000 + (high - 0xD800) * 0x400 + (low - 0xDC00)) :: ·)
    else none
  | .half _ :: _ => none

def pieceOfUnit (unit : Nat) : Piece :=
  if 0xD800 ≤ unit ∧ unit < 0xE000 then .half unit else .char (Char.ofNat unit)

def escaped? : Char → Option Char
  | '"' => some '"'
  | '\\' => some '\\'
  | '/' => some '/'
  | 'b' => some '\x08'
  | 'f' => some '\x0c'
  | 'n' => some '\n'
  | 'r' => some '\r'
  | 't' => some '\t'
  | _ => none

/-- The pieces of a string whose opening quote is gone, and what follows its closing one. -/
def pieces? : List Char → Option (List Piece × List Char)
  | [] => none
  | '"' :: rest => some ([], rest)
  | '\\' :: 'u' :: a :: b :: c :: d :: rest => do
    let unit := ((← hexValue? a) * 16 + (← hexValue? b)) * 256
      + ((← hexValue? c) * 16 + (← hexValue? d))
    let (tail, rest) ← pieces? rest
    pure (pieceOfUnit unit :: tail, rest)
  | '\\' :: c :: rest => do
    let c ← escaped? c
    let (tail, rest) ← pieces? rest
    pure (.char c :: tail, rest)
  | c :: rest =>
    if c.toNat < 0x20 ∨ c = '\\' then none
    else do
      let (tail, rest) ← pieces? rest
      pure (.char c :: tail, rest)

def string? (text : List Char) : Option (Option String × List Char) :=
  (pieces? text).map fun (pieces, rest) => ((join? pieces).map String.ofList, rest)

def natOfDigits (digits : List Char) : Nat :=
  digits.foldl (fun value c => value * 10 + (c.toNat - '0'.toNat)) 0

/-- Digits of a whole number: a zero alone, or digits that begin with another one. -/
def whole? (text : List Char) : Option (List Char × List Char) :=
  match text with
  | '0' :: rest => some (['0'], rest)
  | c :: _ => if isDigit c then some (text.takeWhile isDigit, text.dropWhile isDigit) else none
  | [] => none

/-- A mark with the digits it needs after it; nothing when the mark is not there. -/
def marked? (mark : List Char) (text : List Char) : Option (List Char × List Char) :=
  match text.takeWhile isDigit with
  | [] => none
  | digits => some (mark ++ digits, text.dropWhile isDigit)

def fraction? (text : List Char) : Option (List Char × List Char) :=
  match text with
  | '.' :: rest => marked? ['.'] rest
  | _ => some ([], text)

def exponent? (text : List Char) : Option (List Char × List Char) :=
  match text with
  | 'e' :: '+' :: rest | 'E' :: '+' :: rest => marked? ['e', '+'] rest
  | 'e' :: '-' :: rest | 'E' :: '-' :: rest => marked? ['e', '-'] rest
  | 'e' :: rest | 'E' :: rest => marked? ['e'] rest
  | _ => some ([], text)

/-- The number after an optional minus sign that has been taken. -/
def number? (negative : Bool) (text : List Char) : Option (Json × List Char) := do
  let (whole, text) ← whole? text
  let (fraction, text) ← fraction? text
  let (exponent, text) ← exponent? text
  let number :=
    if fraction.isEmpty && exponent.isEmpty then
      if negative then JsonNumber.negated (natOfDigits whole) else .natural (natOfDigits whole)
    else
      let sign := if negative then ['-'] else []
      .decimal (String.ofList (sign ++ whole ++ fraction ++ exponent))
  pure (.number number, text)

def key? (text : List Char) : Option (Option String × List Char) :=
  match skipBlanks text with
  | '"' :: rest => do
    let (key, rest) ← string? rest
    match skipBlanks rest with
    | ':' :: rest => some (key, rest)
    | _ => none
  | _ => none

mutual

/-- The value at the front of a text. Every second step takes a character, so twice the length
of the text bounds the steps. -/
def value? : (steps : Nat) → List Char → Option (Json × List Char)
  | 0, _ => none
  | steps + 1, text =>
    match skipBlanks text with
    | 'n' :: rest => (after? "ull".toList rest).map (Json.null, ·)
    | 't' :: rest => (after? "rue".toList rest).map (Json.bool true, ·)
    | 'f' :: rest => (after? "alse".toList rest).map (Json.bool false, ·)
    | '"' :: rest => (string? rest).map fun (text, rest) => (.string text, rest)
    | '-' :: rest => number? true rest
    | '[' :: rest =>
      match skipBlanks rest with
      | ']' :: rest => some (.array [], rest)
      | rest => (items? steps rest).map fun (items, rest) => (.array items, rest)
    | '\x7b' :: rest =>
      match skipBlanks rest with
      | '\x7d' :: rest => some (.object [], rest)
      | rest => (members? steps rest).map fun (members, rest) => (.object members, rest)
    | text => number? false text

def items? : (steps : Nat) → List Char → Option (List Json × List Char)
  | 0, _ => none
  | steps + 1, text => do
    let (item, rest) ← value? steps text
    match skipBlanks rest with
    | ']' :: rest => some ([item], rest)
    | ',' :: rest => do
      let (items, rest) ← items? steps rest
      pure (item :: items, rest)
    | _ => none

def members? : (steps : Nat) → List Char → Option (List (Option String × Json) × List Char)
  | 0, _ => none
  | steps + 1, text => do
    let (key, rest) ← key? text
    let (value, rest) ← value? steps rest
    match skipBlanks rest with
    | '\x7d' :: rest => some ([(key, value)], rest)
    | ',' :: rest => do
      let (members, rest) ← members? steps rest
      pure ((key, value) :: members, rest)
    | _ => none

end

end Reader

/-- The value that a text is, none when it is not exactly one value. -/
def ofText? (text : String) : Option Json :=
  let text := text.toList
  match Reader.value? (2 * text.length + 2) text with
  | some (value, rest) => if (Reader.skipBlanks rest).isEmpty then some value else none
  | none => none

end Json

end LosslessTree
