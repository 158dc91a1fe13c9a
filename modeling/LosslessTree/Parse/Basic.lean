import LosslessTree.Descent.Assembly
import LosslessTree.Descent.Run
import LosslessTree.Grammar.Standard
import LosslessTree.Parse.Problem
import LosslessTree.Settings
import LosslessTree.Token.Source

/-!
Parsing texts and token streams. The result is a tree over all tokens and the problems found on
the way. Errors arise only from a start kind without a rule, and from tokens out of order.
-/

namespace LosslessTree

structure Parsed where
  tree : Tree
  /-- In the order of the text. -/
  problems : List Problem

namespace Parsed

def toJson (parsed : Parsed) : Json :=
  .record [("errors", .array (parsed.problems.map Problem.toJson)),
    ("tree", parsed.tree.root.toJson)]

end Parsed

/-- The problem a diagnostic tells of, unless its range is the wrong way round. -/
def Diagnostic.problem (diagnostic : Diagnostic) : Except Fault Problem :=
  match Span.between? diagnostic.start diagnostic.stop with
  | some span => .ok ⟨span, diagnostic.message, diagnostic.expected⟩
  | none => .error .reversed

namespace Descent

def Session.of (grammar : Grammar) (settings : Settings) (tokens : List Token) : Session where
  grammar := grammar
  tape := .ofTokens tokens
  window := max settings.backtrackLimit 1
  reuse := true

def conclude (tape : Tape) (state : State) : Except Fault Parsed :=
  match state.diagnostics.toList.mapM Diagnostic.problem with
  | .error fault => .error fault
  | .ok problems =>
    match toTree tape state.events.toList with
    | .error fault => .error fault
    | .ok tree => .ok ⟨tree, problems⟩

def Session.parse (session : Session) (start : NodeKind) : Except Fault Parsed :=
  conclude session.tape (run session start)

end Descent

/-- Parses tokens as a kind of a grammar. They must be in the order of the text and apart. -/
def parseTokens (grammar : Grammar) (settings : Settings) (start : NodeKind)
    (tokens : List Token) : Except Error Parsed :=
  match grammar.production start with
  | .error error => .error error
  | .ok _ =>
    match (Descent.Session.of grammar settings tokens).parse start with
    | .error fault => .error (.tree fault)
    | .ok parsed => .ok parsed

def tokensOfText (settings : Settings) (text : String) : List Token :=
  Layout.insertMarks settings.layout (Token.ofText text)

def parseText (settings : Settings) (start : NodeKind) (text : String) : Except Error Parsed :=
  parseTokens .standard settings start (tokensOfText settings text)

end LosslessTree
