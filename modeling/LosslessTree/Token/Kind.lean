/-!
The kinds of tokens. Their order is the order in which sets of kinds are listed.
-/

namespace LosslessTree

inductive TokenKind where
  -- markers and trivia
  | eof | whitespace | lineComment | blockComment | flawed
  -- names, operators and literals
  | varId | conId | qualifiedVarId | qualifiedConId | varSym | conSym | integer | float | char
  | string | pragma
  -- brackets and separators
  | leftParen | rightParen | leftBracket | rightBracket | leftBrace | rightBrace | comma | semi
  | backquote
  -- reserved operators
  | dotDot | doubleColon | equals | backslash | pipe | leftArrow | arrow | atSign | tilde
  | doubleArrow
  -- reserved words
  | kwCase | kwClass | kwData | kwDefault | kwDeriving | kwDo | kwElse | kwForeign | kwIf
  | kwImport | kwIn | kwInfix | kwInfixl | kwInfixr | kwInstance | kwLet | kwModule | kwNewtype
  | kwOf | kwThen | kwType | kwWhere | underscore
  deriving DecidableEq, Repr, Inhabited

namespace TokenKind

def all : List TokenKind := [
  .eof, .whitespace, .lineComment, .blockComment, .flawed, .varId, .conId, .qualifiedVarId,
  .qualifiedConId, .varSym, .conSym, .integer, .float, .char, .string, .pragma, .leftParen,
  .rightParen, .leftBracket, .rightBracket, .leftBrace, .rightBrace, .comma, .semi, .backquote,
  .dotDot, .doubleColon, .equals, .backslash, .pipe, .leftArrow, .arrow, .atSign, .tilde,
  .doubleArrow, .kwCase, .kwClass, .kwData, .kwDefault, .kwDeriving, .kwDo, .kwElse, .kwForeign,
  .kwIf, .kwImport, .kwIn, .kwInfix, .kwInfixl, .kwInfixr, .kwInstance, .kwLet, .kwModule,
  .kwNewtype, .kwOf, .kwThen, .kwType, .kwWhere, .underscore]

def index (kind : TokenKind) : Nat := kind.ctorIdx

def name : TokenKind → String
  | .eof => "Eof"
  | .whitespace => "Whitespace"
  | .lineComment => "LineComment"
  | .blockComment => "BlockComment"
  | .flawed => "Error"
  | .varId => "VarId"
  | .conId => "ConId"
  | .qualifiedVarId => "QVarId"
  | .qualifiedConId => "QConId"
  | .varSym => "VarSym"
  | .conSym => "ConSym"
  | .integer => "Integer"
  | .float => "Float"
  | .char => "Char"
  | .string => "String"
  | .pragma => "Pragma"
  | .leftParen => "LParen"
  | .rightParen => "RParen"
  | .leftBracket => "LBracket"
  | .rightBracket => "RBracket"
  | .leftBrace => "LBrace"
  | .rightBrace => "RBrace"
  | .comma => "Comma"
  | .semi => "Semi"
  | .backquote => "Backquote"
  | .dotDot => "DotDot"
  | .doubleColon => "DoubleColon"
  | .equals => "Equals"
  | .backslash => "Backslash"
  | .pipe => "Pipe"
  | .leftArrow => "LeftArrow"
  | .arrow => "Arrow"
  | .atSign => "At"
  | .tilde => "Tilde"
  | .doubleArrow => "DoubleArrow"
  | .kwCase => "Case"
  | .kwClass => "Class"
  | .kwData => "Data"
  | .kwDefault => "Default"
  | .kwDeriving => "Deriving"
  | .kwDo => "Do"
  | .kwElse => "Else"
  | .kwForeign => "Foreign"
  | .kwIf => "If"
  | .kwImport => "Import"
  | .kwIn => "In"
  | .kwInfix => "Infix"
  | .kwInfixl => "Infixl"
  | .kwInfixr => "Infixr"
  | .kwInstance => "Instance"
  | .kwLet => "Let"
  | .kwModule => "Module"
  | .kwNewtype => "Newtype"
  | .kwOf => "Of"
  | .kwThen => "Then"
  | .kwType => "Type"
  | .kwWhere => "Where"
  | .underscore => "Underscore"

def describe : TokenKind → String
  | .eof => "end of input"
  | .whitespace => "whitespace"
  | .lineComment => "comment"
  | .blockComment => "comment"
  | .flawed => "invalid token"
  | .varId => "identifier"
  | .conId => "constructor"
  | .qualifiedVarId => "qualified identifier"
  | .qualifiedConId => "qualified constructor"
  | .varSym => "operator"
  | .conSym => "constructor operator"
  | .integer => "integer literal"
  | .float => "float literal"
  | .char => "character literal"
  | .string => "string literal"
  | .pragma => "pragma"
  | .leftParen => "'('"
  | .rightParen => "')'"
  | .leftBracket => "'['"
  | .rightBracket => "']'"
  | .leftBrace => "'\x7b'"
  | .rightBrace => "'\x7d'"
  | .comma => "','"
  | .semi => "';'"
  | .backquote => "'\x60'"
  | .dotDot => "'..'"
  | .doubleColon => "'::'"
  | .equals => "'='"
  | .backslash => "'\\'"
  | .pipe => "'|'"
  | .leftArrow => "'<-'"
  | .arrow => "'->'"
  | .atSign => "'@'"
  | .tilde => "'~'"
  | .doubleArrow => "'=>'"
  | .kwCase => "'case'"
  | .kwClass => "'class'"
  | .kwData => "'data'"
  | .kwDefault => "'default'"
  | .kwDeriving => "'deriving'"
  | .kwDo => "'do'"
  | .kwElse => "'else'"
  | .kwForeign => "'foreign'"
  | .kwIf => "'if'"
  | .kwImport => "'import'"
  | .kwIn => "'in'"
  | .kwInfix => "'infix'"
  | .kwInfixl => "'infixl'"
  | .kwInfixr => "'infixr'"
  | .kwInstance => "'instance'"
  | .kwLet => "'let'"
  | .kwModule => "'module'"
  | .kwNewtype => "'newtype'"
  | .kwOf => "'of'"
  | .kwThen => "'then'"
  | .kwType => "'type'"
  | .kwWhere => "'where'"
  | .underscore => "'_'"

def ofName? (text : String) : Option TokenKind := all.find? (·.name == text)

/-- White space and comments, which no rule of a grammar mentions. -/
def isTrivia : TokenKind → Bool
  | .whitespace | .lineComment | .blockComment => true
  | _ => false

def isReserved (kind : TokenKind) : Bool := kwCase.index ≤ kind.index

def opensBlock : TokenKind → Bool
  | .kwWhere | .kwLet | .kwDo | .kwOf => true
  | _ => false

def isOpeningBracket : TokenKind → Bool
  | .leftParen | .leftBracket | .leftBrace => true
  | _ => false

def isClosingBracket : TokenKind → Bool
  | .rightParen | .rightBracket | .rightBrace => true
  | _ => false

theorem mem_all (kind : TokenKind) : kind ∈ all := by
  cases kind <;> decide

theorem index_lt (kind : TokenKind) : kind.index < 58 := by
  cases kind <;> decide

theorem index_injective {left right : TokenKind} (heq : left.index = right.index) :
    left = right := by
  rw [← ofNat_ctorIdx left, ← ofNat_ctorIdx right]
  exact congrArg TokenKind.ofNat heq

end TokenKind

end LosslessTree
