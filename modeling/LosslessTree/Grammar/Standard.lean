import LosslessTree.Grammar.Basic

/-!
The grammar of Haskell modules. It settles the shape of declarations and types, and takes
expressions as sequences of atoms, which brackets and blocks nest.
-/

namespace LosslessTree

namespace Grammar

namespace Standard

def node (construct : Construct) : Symbol := .node (.construct construct)

def atoms : List Symbol := [
  node .qualifiedName, node .reservedId, node .textLiteral, node .dotDot, node .doNotation,
  node .letAbstraction, node .parenExpression, node .listExpression, node .declarationBlock,
  .token .integer, .token .float, .token .varSym, .token .conSym, .token .equals, .token .pipe,
  .token .arrow, .token .leftArrow, .token .backslash, .token .atSign, .token .tilde,
  .token .backquote, .token .doubleColon, .token .doubleArrow, .token .comma]

def moduleRules : List (Construct × Rule) := [
  (.module, [.many [node .pragma], .allOrNone [node .moduleDeclaration], .all [node .body]]),
  (.moduleDeclaration, [
    .all [.token .kwModule, node .qualifiedName],
    .allOrNone [node .exportList],
    .all [.token .kwWhere]]),
  (.exportList, [
    .all [.token .leftParen],
    .manySeparated (node .exportItem) .comma,
    .all [.token .rightParen]]),
  (.exportItem, [
    .allOrNone [.token .kwModule],
    .all [node .qualifiedName],
    .allOrNone [node .importMembers]]),
  (.body, [
    .all [.token .leftBrace],
    .many ([
      node .pragma, node .importDeclaration, node .classDeclaration, node .instanceDeclaration,
      node .dataDeclaration, node .newtypeDeclaration, node .typeDeclaration,
      node .typeFamilyDeclaration, node .defaultDeclaration, node .fixityDeclaration,
      node .typeSignature, .token .semi] ++ atoms),
    .all [.token .rightBrace]])]

def importRules : List (Construct × Rule) := [
  (.importDeclaration, [
    .all [.token .kwImport],
    .allOrNone [.word "qualified"],
    .all [node .qualifiedName],
    .allOrNone [node .importQualifiedAs],
    .allOrNone [node .importSpec]]),
  (.importQualifiedAs, [.all [.word "as", node .qualifiedName]]),
  (.importSpec, [.oneOf [node .importEmptySpec, node .importIdsSpec, node .importHidingSpec]]),
  (.importEmptySpec, [.all [.token .leftParen, .token .rightParen]]),
  (.importIdsSpec, [
    .all [.token .leftParen],
    .someSeparated (node .importId) .comma,
    .all [.token .rightParen]]),
  (.importHidingSpec, [
    .all [.word "hiding"],
    .oneOf [node .importEmptySpec, node .importIdsSpec]]),
  (.importId, [
    .allOrNone [.token .kwType],
    .all [node .qualifiedName],
    .allOrNone [node .importMembers]]),
  (.importMembers, [
    .all [.token .leftParen],
    .many [node .dotDot, node .qualifiedName, .token .comma],
    .all [.token .rightParen]])]

/-- Declarations. In a block, associated data comes before plain data, so that a text that fits both
is read as associated data. -/
def declarationRules : List (Construct × Rule) := [
  (.classDeclaration, [
    .all [.token .kwClass, node .typeTerm],
    .allOrNone [.token .kwWhere, node .declarationBlock]]),
  (.instanceDeclaration, [
    .all [.token .kwInstance, node .typeTerm],
    .allOrNone [.token .kwWhere, node .declarationBlock]]),
  (.declarationBlock, [
    .all [.token .leftBrace],
    .many ([
      node .pragma, node .typeSignature, node .fixityDeclaration, node .associatedData,
      node .dataDeclaration, node .defaultDeclaration, node .instanceDeclaration,
      node .newtypeDeclaration, node .typeDeclaration, node .typeFamilyDeclaration,
      .token .semi] ++ atoms),
    .all [.token .rightBrace]]),
  (.dataDeclaration, [
    .all [.token .kwData, node .simpleType],
    .allOrNone [node .kindSignature],
    .allOrNone [node .constructors],
    .many [node .derivingClause]]),
  (.associatedData, [
    .all [.token .kwData],
    .allOrNone [.word "family"],
    .all [node .simpleType],
    .allOrNone [node .kindSignature]]),
  (.newtypeDeclaration, [
    .all [.token .kwNewtype, node .simpleType, .token .equals, node .constructor],
    .many [node .derivingClause]]),
  (.typeDeclaration, [.all [.token .kwType, node .simpleType, .token .equals, node .typeTerm]]),
  (.typeFamilyDeclaration, [
    .all [.token .kwType],
    .allOrNone [.word "family"],
    .all [node .simpleType],
    .allOrNone [node .kindSignature]]),
  (.defaultDeclaration, [.all [.token .kwDefault, node .parenType]]),
  (.fixityDeclaration, [
    .oneOf [.token .kwInfix, .token .kwInfixl, .token .kwInfixr],
    .allOrNone [.token .integer],
    .someSeparated (node .operator) .comma]),
  (.typeSignature, [
    .someSeparated (node .qualifiedName) .comma,
    .all [.token .doubleColon, node .typeTerm]]),
  (.constructors, [.all [.token .equals], .someSeparated (node .constructor) .pipe]),
  (.constructor, [
    .some [
      node .qualifiedName, node .parenType, node .listType, node .recordFields, .token .varSym,
      .token .conSym]]),
  (.recordFields, [
    .all [.token .leftBrace],
    .manySeparated (node .fieldDeclaration) .comma,
    .all [.token .rightBrace]]),
  (.fieldDeclaration, [
    .someSeparated (node .qualifiedName) .comma,
    .all [.token .doubleColon, node .typeTerm]]),
  (.derivingClause, [.all [.token .kwDeriving], .oneOf [node .qualifiedName, node .parenType]])]

def typeRules : List (Construct × Rule) := [
  (.simpleType, [.all [node .qualifiedName], .many [node .qualifiedName, node .parenType]]),
  (.kindSignature, [.all [.token .doubleColon, node .typeTerm]]),
  (.typeTerm, [
    .some [
      node .qualifiedName, node .parenType, node .listType, node .textLiteral, .token .arrow,
      .token .doubleArrow, .token .tilde, .token .varSym, .token .conSym, .token .integer]]),
  (.parenType, [
    .all [.token .leftParen],
    .many [node .typeTerm, .token .comma, .token .doubleColon],
    .all [.token .rightParen]]),
  (.listType, [
    .all [.token .leftBracket],
    .many [node .typeTerm, .token .comma],
    .all [.token .rightBracket]])]

def expressionRules : List (Construct × Rule) := [
  (.doNotation, [
    .all [.token .kwDo, .token .leftBrace],
    .many ([.token .semi] ++ atoms),
    .all [.token .rightBrace]]),
  (.letAbstraction, [.all [.token .kwLet, node .declarationBlock]]),
  (.parenExpression, [.all [.token .leftParen], .many atoms, .all [.token .rightParen]]),
  (.listExpression, [.all [.token .leftBracket], .many atoms, .all [.token .rightBracket]]),
  (.operator, [.oneOf [.token .varSym, .token .conSym]]),
  (.parenOperator, [
    .all [.token .leftParen],
    .oneOf [.token .varSym, .token .conSym],
    .all [.token .rightParen]]),
  (.qualifiedName, [
    .oneOf [
      .token .varId, .token .conId, .token .qualifiedVarId, .token .qualifiedConId,
      node .parenOperator]]),
  (.reservedId, [.oneOf (TokenKind.all.filter TokenKind.isReserved |>.map .token)]),
  (.textLiteral, [.oneOf [.token .string, .token .char]]),
  (.dotDot, [.all [.token .dotDot]]),
  (.pragma, [.all [.token .pragma]])]

def rules : Rules :=
  (moduleRules ++ importRules ++ declarationRules ++ typeRules ++ expressionRules).map
    fun (construct, rule) => (.construct construct, rule)

end Standard

def standard : Grammar := compile Standard.rules

theorem build_standard : build Standard.rules = .ok standard := by
  have hduplicate : firstDuplicate? [] (Standard.rules.map (·.1)) = none := by decide +kernel
  have hmissing : firstMissing? Standard.rules = none := by decide +kernel
  simp only [build, hduplicate, hmissing, standard]

end Grammar

end LosslessTree
