import LosslessTree.Layout.Column
import LosslessTree.Layout.Context
import LosslessTree.Token.Basic

/-!
Blocks made explicit. Indentation after `where`, `let`, `do` and `of` opens a block; lines at its
column begin its items, a line left of it ends it. Each of these is marked by a token without
text, put directly before the token that causes it. The tokens of the text are kept as they are.
-/

namespace LosslessTree

namespace Layout

inductive Mode where
  /-- A whole module, which is a block unless it begins with `module` or a brace. -/
  | module
  | block
  | none
  deriving DecidableEq, Repr, Inhabited

structure State where
  contexts : List Context
  /-- A block is to open at the next token; whether by `let`. -/
  pending : Option Bool
  /-- The first token will tell whether the whole module is a block. -/
  undecided : Bool
  column : Nat
  /-- No token has come since the last line break, blanks and comments aside. -/
  fresh : Bool

def start (mode : Mode) : State where
  contexts := []
  pending := if mode = .block then some false else none
  undecided := mode = .module
  column := 0
  fresh := true

/-- Settles whether the module is a block. Pragmas may come before that. -/
def decideModule (kind : TokenKind) (state : State) : State :=
  if state.undecided && kind != .pragma then
    { state with
      undecided := false
      pending := if kind = .kwModule then state.pending else some false }
  else state

/-- Passes over a token, which moves the column and may begin a line. -/
def pass (token : Token) (state : State) : State :=
  { state with
    column := advance state.column token.text.toList
    fresh := token.isTrivia && (state.fresh || token.text.toList.contains '\n') }

/-- The marks of a pending block and whether it stays open. -/
def openPending (kind : TokenKind) (state : State) : List TokenKind × List Context × Bool :=
  match state.pending with
  | some ofLet =>
    if kind = .leftBrace then ([], state.contexts, false)
    else if isDeeper state.column state.contexts then
      ([.leftBrace], .block state.column ofLet :: state.contexts, true)
    else ([.leftBrace, .rightBrace], state.contexts, false)
  | none => ([], state.contexts, false)

def beginLine (column : Nat) (contexts : List Context) : List TokenKind × List Context :=
  let (closed, left) := closeDeeper column contexts
  (List.replicate closed .rightBrace ++ (if isAt column left then [.semi] else []), left)

def step (token : Token) (state : State) : List TokenKind × State :=
  let state := decideModule token.kind state
  let (opened, contexts, justOpened) := openPending token.kind state
  let (lined, contexts) :=
    if !justOpened && state.fresh then beginLine state.column contexts else ([], contexts)
  let (closed, contexts) := closeBy token.kind contexts
  let state := pass token { state with
    contexts := if token.kind.isOpeningBracket then .bracket :: contexts else contexts
    pending := if token.kind.opensBlock then some (token.kind == .kwLet) else none }
  (opened ++ lined ++ List.replicate closed .rightBrace, state)

def finish (state : State) : List TokenKind :=
  (if state.pending.isSome || state.undecided then [.leftBrace, .rightBrace] else [])
    ++ (state.contexts.filter Context.isBlock).map fun _ => .rightBrace

def marksAt (token : Token) (marks : List TokenKind) : List Token :=
  marks.map (Token.zeroWidth · token.span.start)

def run (state : State) : List Token → List Token
  | [] => []
  | token :: rest =>
    if token.isTrivia then token :: run (pass token state) rest
    else if token.kind = .eof then marksAt token (finish state) ++ [token]
    else
      let (marks, state) := step token state
      marksAt token marks ++ token :: run state rest

def insertMarks (mode : Mode) (tokens : List Token) : List Token := run (start mode) tokens

end Layout

end LosslessTree
