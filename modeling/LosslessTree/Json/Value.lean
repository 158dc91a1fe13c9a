/-!
JSON values. Whole numbers keep their exact value and a minus sign in front of zero, and every
other number keeps its spelling. An object keeps its members as they were written, repeated keys
included. A text is none when its escapes leave half of a surrogate pair alone, which denotes no
character.
-/

namespace LosslessTree

inductive JsonNumber where
  | natural (value : Nat)
  | negated (value : Nat)
  | decimal (spelling : String)
  deriving DecidableEq, Repr

inductive Json where
  | null
  | bool (value : Bool)
  | number (value : JsonNumber)
  | string (value : Option String)
  | array (items : List Json)
  | object (members : List (Option String × Json))
  deriving Inhabited

namespace Json

def nat (value : Nat) : Json := number (.natural value)

def str (value : String) : Json := string (some value)

def record (members : List (String × Json)) : Json :=
  object (members.map fun (key, value) => (some key, value))

def str? (value : Option String) : Json := (value.map str).getD null

/-- The last member with a key, as later members replace earlier ones. -/
def member? (key : String) : Json → Option Json
  | object members => (members.reverse.find? (·.1 == some key)).map (·.2)
  | _ => none

def lastMembers : List (Option String × Json) → List (Option String × Json)
  | [] => []
  | (key, value) :: rest =>
    if rest.any (·.1 == key) then lastMembers rest else (key, value) :: lastMembers rest

def merged : Json → Json
  | object members => object (lastMembers members)
  | value => value

def string? : Json → Option String
  | string value => value
  | _ => none

def nat? : Json → Option Nat
  | number (.natural value) => some value
  | _ => none

def items? : Json → Option (List Json)
  | array items => some items
  | _ => none

end Json

end LosslessTree
