import LosslessTree.Token.Kind

/-!
Words and operators that the language keeps for itself.
-/

namespace LosslessTree

namespace TokenKind

def reservedWords : List (String × TokenKind) := [
  ("case", .kwCase), ("class", .kwClass), ("data", .kwData), ("default", .kwDefault),
  ("deriving", .kwDeriving), ("do", .kwDo), ("else", .kwElse), ("foreign", .kwForeign),
  ("if", .kwIf), ("import", .kwImport), ("in", .kwIn), ("infix", .kwInfix),
  ("infixl", .kwInfixl), ("infixr", .kwInfixr), ("instance", .kwInstance), ("let", .kwLet),
  ("module", .kwModule), ("newtype", .kwNewtype), ("of", .kwOf), ("then", .kwThen),
  ("type", .kwType), ("where", .kwWhere), ("_", .underscore)]

def reservedOperators : List (String × TokenKind) := [
  ("..", .dotDot), ("::", .doubleColon), ("=", .equals), ("\\", .backslash), ("|", .pipe),
  ("<-", .leftArrow), ("->", .arrow), ("@", .atSign), ("~", .tilde), ("=>", .doubleArrow)]

def ofWord (word : List Char) : TokenKind :=
  (reservedWords.lookup (String.ofList word)).getD .varId

def isReservedWord (word : List Char) : Bool :=
  (reservedWords.lookup (String.ofList word)).isSome

/-- The kind of an operator. A colon in front marks an operator of a constructor. -/
def ofOperator (operator : List Char) : TokenKind :=
  match reservedOperators.lookup (String.ofList operator) with
  | some kind => kind
  | none => if operator.head? = some ':' then .conSym else .varSym

end TokenKind

end LosslessTree
