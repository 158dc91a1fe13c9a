import LosslessTree.Node.Kind

/-!
Rules as data. A rule is a list of slots; a slot is a pattern of symbols with a multiplicity. In a
repeated slot a separator may stand between the matches.
-/

namespace LosslessTree

namespace Grammar

inductive Symbol where
  | token (kind : TokenKind)
  /-- An identifier with a fixed text. -/
  | word (text : String)
  | node (kind : NodeKind)
  deriving DecidableEq, Repr

def Symbol.describe : Symbol → String
  | token kind => kind.describe
  | word text => "'" ++ text ++ "'"
  | node kind => kind.name

inductive Pattern where
  | sequence (symbols : List Symbol)
  | choice (symbols : List Symbol)
  deriving DecidableEq, Repr

def Pattern.symbols : Pattern → List Symbol
  | sequence symbols | choice symbols => symbols

inductive Multiplicity where
  | exactlyOne
  | zeroOrOne
  | zeroOrMore
  | oneOrMore
  deriving DecidableEq, Repr

namespace Multiplicity

def isRepeated : Multiplicity → Bool
  | zeroOrMore | oneOrMore => true
  | _ => false

def allowsZero : Multiplicity → Bool
  | zeroOrOne | zeroOrMore => true
  | _ => false

def describe : Multiplicity → String
  | exactlyOne => "exactly-one"
  | zeroOrOne => "zero-or-one"
  | zeroOrMore => "zero-or-more"
  | oneOrMore => "one-or-more"

end Multiplicity

structure Slot where
  pattern : Pattern
  multiplicity : Multiplicity
  separator : Option TokenKind := none
  deriving DecidableEq, Repr

namespace Slot

def all (symbols : List Symbol) : Slot := ⟨.sequence symbols, .exactlyOne, none⟩

def allOrNone (symbols : List Symbol) : Slot := ⟨.sequence symbols, .zeroOrOne, none⟩

def oneOf (symbols : List Symbol) : Slot := ⟨.choice symbols, .exactlyOne, none⟩

def oneOfOrNone (symbols : List Symbol) : Slot := ⟨.choice symbols, .zeroOrOne, none⟩

def many (symbols : List Symbol) : Slot := ⟨.choice symbols, .zeroOrMore, none⟩

def some (symbols : List Symbol) : Slot := ⟨.choice symbols, .oneOrMore, none⟩

def manySeparated (symbol : Symbol) (separator : TokenKind) : Slot :=
  ⟨.choice [symbol], .zeroOrMore, Option.some separator⟩

def someSeparated (symbol : Symbol) (separator : TokenKind) : Slot :=
  ⟨.choice [symbol], .oneOrMore, Option.some separator⟩

end Slot

abbrev Rule := List Slot

/-- Rules in the order of their registration. -/
abbrev Rules := List (NodeKind × Rule)

end Grammar

end LosslessTree
