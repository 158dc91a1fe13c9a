import LosslessTree.Node.Basic
import LosslessTree.Text.Escape

/-!
What the small constructs say: names, operators, literals, pragmas and fixities. Each reading gives
none when the node lacks the token it looks for.
-/

namespace LosslessTree

namespace Node

def childToken? (node : Node) (kinds : List TokenKind) : Option Node :=
  node.children.find? fun child => child.tokenKind?.any kinds.contains

/-- The first leaf at or below the node that can be a name or an operator. -/
def nameToken? (node : Node) : Option Node :=
  node.descendants.find? fun node => node.tokenKind?.any
    [.varId, .conId, .qualifiedVarId, .qualifiedConId, .varSym, .conSym].contains

def name? (node : Node) : Option String := node.nameToken?.bind tokenText?

def isQualifiedOperator (text : String) : Bool :=
  text.toList.head?.any Text.isUppercase && text.toList.contains '.'

def isQualifiedName (node : Node) : Bool :=
  match node.nameToken? with
  | none => false
  | some token =>
    match token.tokenKind? with
    | some .qualifiedVarId | some .qualifiedConId => true
    | some .varSym | some .conSym => token.tokenText?.any isQualifiedOperator
    | _ => false

def firstText? (node : Node) : Option String := node.firstToken?.bind tokenText?

def firstKind? (node : Node) : Option TokenKind := node.firstToken?.bind tokenKind?

def parenthesized? (node : Node) : Option String :=
  (node.childToken? [.varSym, .conSym]).bind tokenText?

/-- A number of at most 255 in decimal digits, with an optional plus sign. -/
def byte? (text : List Char) : Option Nat :=
  let digits := match text with
    | '+' :: rest => rest
    | text => text
  if digits.isEmpty || !digits.all Text.isDecimalDigit then none
  else
    let value := Text.valueOfDigits 10 digits
    if value < 256 then some value else none

def precedence? (node : Node) : Option Nat :=
  ((node.childToken? [.integer]).bind tokenText?).bind fun text => byte? text.toList

/-- The text between a mark at the front and one at the back that do not overlap. -/
def between? (front back text : List Char) : Option (List Char) :=
  if front.isPrefixOf text && back.isSuffixOf (text.drop front.length) then
    some ((text.drop front.length).take (text.length - front.length - back.length))
  else none

/-- The literal without its quotes and with its escapes decoded. -/
def literal? (node : Node) : Option String :=
  node.firstText?.bind fun text =>
    (((between? ['"'] ['"'] text.toList).or (between? ['\''] ['\''] text.toList)).bind
      Text.unescape?).map String.ofList

/-- The text between the marks of a pragma, without blanks around it. -/
def pragmaContent? (node : Node) : Option String :=
  node.firstText?.bind fun text =>
    (between? ['\x7b', '-', '#'] ['#', '-', '\x7d'] text.toList).map fun content =>
      String.ofList
        ((content.dropWhile Text.isBlank).reverse.dropWhile Text.isBlank).reverse

def isQualifiedImport (node : Node) : Bool :=
  node.children.any fun child =>
    child.tokenKind? == some .varId && child.tokenText? == some "qualified"

def isFamily (node : Node) : Bool :=
  node.children.any fun child => child.tokenText? == some "family"

end Node

end LosslessTree
