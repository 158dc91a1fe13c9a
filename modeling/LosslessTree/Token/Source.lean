import LosslessTree.Token.Basic
import LosslessTree.Token.Lexeme.First

/-!
The tokens of a text: its lexemes one after the other, and the end of the text.
-/

namespace LosslessTree

namespace Token

def ofLexeme (lexeme : Lexeme) (offset : Nat) (text : List Char) : Token :=
  { covering lexeme.kind offset (String.ofList text) with flaw := lexeme.flaw?.map Flaw.message }

def scan (offset : Nat) (text : List Char) : List Token :=
  match text with
  | [] => [eof offset]
  | c :: rest =>
    let lexeme := Lexeme.first c rest
    let token := ofLexeme lexeme offset (c :: rest.take lexeme.more)
    token :: scan token.span.stop (rest.drop lexeme.more)
termination_by text.length
decreasing_by simp only [List.length_drop, List.length_cons]; omega

def ofText (text : String) : List Token := scan 0 text.toList

end Token

end LosslessTree
