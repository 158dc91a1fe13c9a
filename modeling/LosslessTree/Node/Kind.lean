import LosslessTree.Token.Kind

/-!
Kinds of nodes: leaves by their token, error nodes, the constructs of the language, and kinds that
a grammar outside this library may add.
-/

namespace LosslessTree

inductive Construct where
  | module | moduleDeclaration | exportList | exportItem | body | importDeclaration
  | importQualifiedAs | importSpec | importEmptySpec | importIdsSpec | importHidingSpec
  | importId | importMembers | classDeclaration | instanceDeclaration | declarationBlock
  | dataDeclaration | associatedData | newtypeDeclaration | typeDeclaration
  | typeFamilyDeclaration | defaultDeclaration | fixityDeclaration | typeSignature | simpleType
  | kindSignature | constructors | constructor | recordFields | fieldDeclaration | derivingClause
  | typeTerm | parenType | listType | doNotation | letAbstraction | parenExpression
  | listExpression | operator | parenOperator | qualifiedName | reservedId | textLiteral | dotDot
  | pragma
  deriving DecidableEq, Repr, Inhabited

namespace Construct

def all : List Construct := [
  .module, .moduleDeclaration, .exportList, .exportItem, .body, .importDeclaration,
  .importQualifiedAs, .importSpec, .importEmptySpec, .importIdsSpec, .importHidingSpec,
  .importId, .importMembers, .classDeclaration, .instanceDeclaration, .declarationBlock,
  .dataDeclaration, .associatedData, .newtypeDeclaration, .typeDeclaration,
  .typeFamilyDeclaration, .defaultDeclaration, .fixityDeclaration, .typeSignature, .simpleType,
  .kindSignature, .constructors, .constructor, .recordFields, .fieldDeclaration, .derivingClause,
  .typeTerm, .parenType, .listType, .doNotation, .letAbstraction, .parenExpression,
  .listExpression, .operator, .parenOperator, .qualifiedName, .reservedId, .textLiteral, .dotDot,
  .pragma]

def index (construct : Construct) : Nat := construct.ctorIdx

def name : Construct → String
  | .module => "Module"
  | .moduleDeclaration => "ModuleDeclaration"
  | .exportList => "ExportList"
  | .exportItem => "Export"
  | .body => "Body"
  | .importDeclaration => "ImportDeclaration"
  | .importQualifiedAs => "ImportQualifiedAs"
  | .importSpec => "ImportSpec"
  | .importEmptySpec => "ImportEmptySpec"
  | .importIdsSpec => "ImportIdsSpec"
  | .importHidingSpec => "ImportHidingSpec"
  | .importId => "ImportId"
  | .importMembers => "ImportCnames"
  | .classDeclaration => "ClassDeclaration"
  | .instanceDeclaration => "InstanceDeclaration"
  | .declarationBlock => "Cdecls"
  | .dataDeclaration => "DataDeclaration"
  | .associatedData => "CdeclDataDeclaration"
  | .newtypeDeclaration => "NewtypeDeclaration"
  | .typeDeclaration => "TypeDeclaration"
  | .typeFamilyDeclaration => "TypeFamilyDeclaration"
  | .defaultDeclaration => "DefaultDeclaration"
  | .fixityDeclaration => "FixityDeclaration"
  | .typeSignature => "TypeSignature"
  | .simpleType => "SimpleType"
  | .kindSignature => "KindSignature"
  | .constructors => "Constructors"
  | .constructor => "Constructor"
  | .recordFields => "RecordFields"
  | .fieldDeclaration => "FieldDeclaration"
  | .derivingClause => "Deriving"
  | .typeTerm => "Ttype"
  | .parenType => "ParenType"
  | .listType => "ListType"
  | .doNotation => "DoNotation"
  | .letAbstraction => "LetAbstraction"
  | .parenExpression => "ParenExpression"
  | .listExpression => "ListExpression"
  | .operator => "Operator"
  | .parenOperator => "ParenOperator"
  | .qualifiedName => "QName"
  | .reservedId => "ReservedId"
  | .textLiteral => "TextLiteral"
  | .dotDot => "DotDot"
  | .pragma => "Pragma"

/-- A name in lower case, its words joined by underscores. -/
def snakeCase (text : String) : String :=
  match text.toList with
  | [] => ""
  | c :: rest =>
    String.ofList (c.toLower ::
      rest.flatMap fun c => if c.isUpper then ['_', c.toLower] else [c])

theorem mem_all (construct : Construct) : construct ∈ all := by
  cases construct <;> decide

end Construct

inductive NodeKind where
  | token (kind : TokenKind)
  /-- Tokens that do not fit, or the place where something is missing. -/
  | error
  | construct (construct : Construct)
  | extension (number : UInt16)
  deriving DecidableEq, Repr, Inhabited

namespace NodeKind

instance : Coe Construct NodeKind := ⟨construct⟩

def name : NodeKind → String
  | token kind => kind.name
  | error => "Error"
  | construct c => c.name
  | extension number => "Extension(" ++ toString number.toNat ++ ")"

def isToken : NodeKind → Bool
  | token _ => true
  | _ => false

def isTrivia : NodeKind → Bool
  | token kind => kind.isTrivia
  | _ => false

def token? : NodeKind → Option TokenKind
  | token kind => some kind
  | _ => none

def construct? : NodeKind → Option Construct
  | construct c => some c
  | _ => none

/-- Kinds compare by class first, then within the class. -/
def rank : NodeKind → Nat × Nat
  | token kind => (0, kind.index)
  | error => (1, 0)
  | construct c => (2, c.index)
  | extension number => (3, number.toNat)

def le (left right : NodeKind) : Bool :=
  left.rank.1 < right.rank.1 || (left.rank.1 == right.rank.1 && left.rank.2 ≤ right.rank.2)

def sortDistinct (kinds : List NodeKind) : List NodeKind := (kinds.mergeSort le).eraseReps

end NodeKind

end LosslessTree
