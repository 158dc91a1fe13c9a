import LosslessTree.Token.Lexeme.Basic
import LosslessTree.Token.Reserved

/-!
Names and operators. A constructor name may qualify what follows its dot: a further constructor
name, a variable or an operator. A dot before a reserved word, or before anything else, is not
part of the name.
-/

namespace LosslessTree

namespace Lexeme

open Text

def variableName (first : Char) (rest : List Char) : Lexeme :=
  let length := runLength isNameChar rest
  ofKind (TokenKind.ofWord (first :: rest.take length)) length

/-- What a constructor name, of a kind so far, goes on to be: the kind of the whole, and how many
more characters it takes. -/
def qualification (kind : TokenKind) (rest : List Char) : TokenKind × Nat :=
  match rest with
  | '.' :: first :: rest =>
    let name := runLength isNameChar (first :: rest)
    if isUppercase first then
      let (kind, more) := qualification .qualifiedConId ((first :: rest).drop name)
      (kind, 1 + name + more)
    else if isVariableStart first then
      if TokenKind.isReservedWord ((first :: rest).take name) then (kind, 0)
      else (.qualifiedVarId, 1 + name)
    else if isSymbol first then
      (if first = ':' then .conSym else .varSym, 1 + runLength isSymbol (first :: rest))
    else (kind, 0)
  | _ => (kind, 0)
termination_by rest.length
decreasing_by simp only [List.length_drop, List.length_cons]; omega

def constructorName (rest : List Char) : Lexeme :=
  let length := runLength isNameChar rest
  let (kind, more) := qualification .conId (rest.drop length)
  ofKind kind (length + more)

def operator (first : Char) (rest : List Char) : Lexeme :=
  let length := runLength isSymbol rest
  ofKind (TokenKind.ofOperator (first :: rest.take length)) length

end Lexeme

end LosslessTree
