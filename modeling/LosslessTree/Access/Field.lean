import LosslessTree.Access.Leaf
import LosslessTree.Access.Projection
import LosslessTree.Grammar.Standard

/-!
The fields of each construct: its children by kind, as the grammar of the language permits them,
and what the small constructs say.
-/

namespace LosslessTree

inductive Facet where
  | declarations
  | importQualified
  | family
  | fixity
  | precedence
  | operatorSymbol
  | parenthesizedSymbol
  | identifier
  | nameQualified
  | keyword
  | literal
  | pragmaContent
  deriving DecidableEq, Repr

inductive Field where
  | child (kind : NodeKind) (multiplicity : Grammar.Multiplicity)
  | facet (facet : Facet)
  deriving DecidableEq, Repr

inductive FieldValue where
  | accessed (children : Accessed)
  | truth (value : Bool)
  | kind (value : Option TokenKind)
  | number (value : Option Nat)
  | text (value : Option String)

namespace Construct

def isDeclaration : Construct → Bool
  | .importDeclaration | .classDeclaration | .instanceDeclaration | .dataDeclaration
  | .associatedData | .newtypeDeclaration | .typeDeclaration | .typeFamilyDeclaration
  | .defaultDeclaration | .fixityDeclaration | .typeSignature => true
  | _ => false

def facets : Construct → List Facet
  | .body | .declarationBlock => [.declarations]
  | .importDeclaration => [.importQualified]
  | .associatedData => [.family]
  | .fixityDeclaration => [.fixity, .precedence]
  | .operator => [.operatorSymbol]
  | .parenOperator => [.parenthesizedSymbol]
  | .qualifiedName => [.identifier, .nameQualified]
  | .reservedId => [.keyword]
  | .textLiteral => [.literal]
  | .pragma => [.pragmaContent]
  | _ => []

def accessors (construct : Construct) : Grammar.AccessorTable :=
  match Grammar.standard.production? construct with
  | some production => production.accessors
  | none => []

def fields (construct : Construct) : List Field :=
  (construct.accessors.map fun (kind, multiplicity) => .child kind multiplicity)
    ++ construct.facets.map .facet

end Construct

namespace Facet

def name : Facet → String
  | declarations => "declarations"
  | importQualified | nameQualified => "is_qualified"
  | family => "is_family"
  | fixity => "fixity"
  | precedence => "precedence"
  | operatorSymbol | parenthesizedSymbol => "symbol"
  | identifier => "name"
  | keyword => "keyword"
  | literal => "value"
  | pragmaContent => "content"

def read (cursor : Cursor) : Facet → FieldValue
  | declarations => .accessed (.many (cursor.children.filter fun child =>
      child.kind.construct?.any Construct.isDeclaration))
  | importQualified => .truth cursor.focus.isQualifiedImport
  | family => .truth cursor.focus.isFamily
  | fixity | keyword => .kind cursor.focus.firstKind?
  | precedence => .number cursor.focus.precedence?
  | operatorSymbol => .text cursor.focus.firstText?
  | parenthesizedSymbol => .text cursor.focus.parenthesized?
  | identifier => .text cursor.focus.name?
  | nameQualified => .truth cursor.focus.isQualifiedName
  | literal => .text cursor.focus.literal?
  | pragmaContent => .text cursor.focus.pragmaContent?

end Facet

namespace Field

def name : Field → String
  | child kind multiplicity =>
    Construct.snakeCase kind.name ++ (if multiplicity.isRepeated then "_list" else "")
  | facet part => part.name

/-- The children of a kind. A single child must be there alone; of optional ones the first
counts. -/
def readChild (cursor : Cursor) (kind : NodeKind) :
    Grammar.Multiplicity → Except Error Accessed
  | .exactlyOne =>
    match cursor.children.filter (·.kind = kind) with
    | [found] => .ok (.one found)
    | found => .error (.childCount cursor.kind kind cursor.focus.span found.length)
  | .zeroOrOne => .ok (.optional (cursor.children.find? (·.kind = kind)))
  | _ => .ok (.many (cursor.children.filter (·.kind = kind)))

def read (cursor : Cursor) : Field → Except Error FieldValue
  | child kind multiplicity => (readChild cursor kind multiplicity).map .accessed
  | facet part => .ok (part.read cursor)

end Field

end LosslessTree
