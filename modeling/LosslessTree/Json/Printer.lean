import LosslessTree.Json.Value

/-!
Writing JSON: on one line with ASCII characters only, or one member a line with two blanks of
indentation. Both append to the text written so far.
-/

namespace LosslessTree

namespace Json

namespace Printer

def hexDigit (n : Nat) : Char := (Nat.toDigits 16 (n % 16)).headD '0'

def unit (n : Nat) : List Char :=
  ['\\', 'u', hexDigit (n / 4096), hexDigit (n / 256), hexDigit (n / 16), hexDigit n]

/-- A character in a string, escaped only where the format asks for it. -/
def escape (c : Char) : List Char :=
  if c = '"' then ['\\', '"']
  else if c = '\\' then ['\\', '\\']
  else if c = '\x08' then ['\\', 'b']
  else if c = '\x0c' then ['\\', 'f']
  else if c = '\n' then ['\\', 'n']
  else if c = '\r' then ['\\', 'r']
  else if c = '\t' then ['\\', 't']
  else if c.toNat < 0x20 then unit c.toNat
  else [c]

/-- A character in a string of ASCII characters; one beyond the first plane is a pair. -/
def escapeAscii (c : Char) : List Char :=
  if c.toNat < 0x80 then escape c
  else if c.toNat < 0x10000 then unit c.toNat
  else unit (0xD800 + (c.toNat - 0x10000) / 0x400) ++ unit (0xDC00 + (c.toNat - 0x10000) % 0x400)

def quote (escape : Char → List Char) (out : String) (text : String) : String :=
  (text.toList.foldl (fun out c => (escape c).foldl String.push out) (out.push '"')).push '"'

def number : JsonNumber → String
  | .natural value => toString value
  | .negated value => "-" ++ toString value
  | .decimal spelling => spelling

def indent (out : String) (depth : Nat) : String :=
  depth.repeat (fun out => out ++ "  ") (out.push '\n')

mutual

def line (out : String) : Json → String
  | .null => out ++ "null"
  | .bool value => out ++ (if value then "true" else "false")
  | .number value => out ++ number value
  | .string value => quote escapeAscii out (value.getD "")
  | .array items => (lineItems (out.push '[') true items).push ']'
  | .object members => (lineMembers (out.push '\x7b') true members).push '\x7d'

def lineItems (out : String) (first : Bool) : List Json → String
  | [] => out
  | item :: items => lineItems (line (if first then out else out.push ',') item) false items

def lineMembers (out : String) (first : Bool) : List (Option String × Json) → String
  | [] => out
  | (key, value) :: members =>
    let out := quote escapeAscii (if first then out else out.push ',') (key.getD "")
    lineMembers (line (out.push ':') value) false members

end

mutual

def tall (depth : Nat) (out : String) : Json → String
  | .null => out ++ "null"
  | .bool value => out ++ (if value then "true" else "false")
  | .number value => out ++ number value
  | .string value => quote escape out (value.getD "")
  | .array [] => out ++ "[]"
  | .array items => (indent (tallItems (depth + 1) (out.push '[') true items) depth).push ']'
  | .object [] => out ++ "\x7b\x7d"
  | .object members =>
    (indent (tallMembers (depth + 1) (out.push '\x7b') true members) depth).push '\x7d'

def tallItems (depth : Nat) (out : String) (first : Bool) : List Json → String
  | [] => out
  | item :: items =>
    let out := indent (if first then out else out.push ',') depth
    tallItems depth (tall depth out item) false items

def tallMembers (depth : Nat) (out : String) (first : Bool) : List (Option String × Json) → String
  | [] => out
  | (key, value) :: members =>
    let out := indent (if first then out else out.push ',') depth
    let out := quote escape out (key.getD "") ++ ": "
    tallMembers depth (tall depth out value) false members

end

end Printer

def compact (value : Json) : String := Printer.line "" value

def pretty (value : Json) : String := Printer.tall 0 "" value

end Json

end LosslessTree
