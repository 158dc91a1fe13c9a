import LosslessTree.Parse.Basic
import LosslessTree.Proofs.Words.Assembly
import LosslessTree.Proofs.Words.Descent

/-!
Parsing words: the tree over the shapes of a run and the problems its reports tell of. Parsing
tokens comes to the same, and here nothing stands between two words.
-/

namespace LosslessTree

/-- What a complaint about a token says. A flaw of the token is the better explanation. -/
def Complaint.message (token : Token) : Complaint → String
  | .unexpected => token.flaw.getD ("unexpected " ++ token.kind.describe)
  | .tooDeep => "nesting too deep"
  | .missing what => "expected " ++ what

def Report.span (stream : Stream) (report : Report) : Except Fault Span :=
  let start := stream.offsetAt report.position
  match report.extent with
  | 0 => .ok (.empty start)
  | extent + 1 =>
    match Span.between? start (stream.tokenAt (report.position + extent)).span.stop with
    | some span => .ok span
    | none => .error .reversed

def Problem.ofReport (stream : Stream) (report : Report) : Except Fault Problem :=
  match report.span stream with
  | .error fault => .error fault
  | .ok span =>
    .ok ⟨span, report.complaint.message (stream.tokenAt report.position), report.expected⟩

namespace Parse

def Session.of (grammar : Grammar) (settings : Settings) (tokens : List Token) : Session where
  grammar := grammar
  stream := .ofTokens tokens
  window := max settings.backtrackLimit 1
  reuse := true

def problemsOf (stream : Stream) : List Report → Except Fault (List Problem)
  | [] => .ok []
  | report :: rest =>
    match Problem.ofReport stream report with
    | .error fault => .error fault
    | .ok problem =>
      match problemsOf stream rest with
      | .error fault => .error fault
      | .ok problems => .ok (problem :: problems)

def conclude (stream : Stream) (start : NodeKind) (state : State) : Except Fault Parsed :=
  match problemsOf stream state.reports.reverse with
  | .error fault => .error fault
  | .ok problems =>
    match Shape.toTree stream start state.built.reverse with
    | .error fault => .error fault
    | .ok tree => .ok ⟨tree, problems⟩

def Session.parse (session : Session) (start : NodeKind) : Except Fault Parsed :=
  conclude session.stream start (run session start)

end Parse

end LosslessTree
