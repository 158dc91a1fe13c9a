import LosslessTree.Descent.Tape

/-!
Tokens put together to words: a significant token with the blanks and comments that follow it. The
blanks before the first one stand apart. Positions count words.
-/

namespace LosslessTree

structure Word where
  token : Token
  trivia : List Token
  deriving Inhabited

structure Stream where
  leading : List Token
  words : Array Word
  final : Token

namespace Stream

/-- The blanks at the front of the tokens, and the words after them. -/
def group : List Token → List Token × List Word
  | [] => ([], [])
  | token :: rest =>
    let (trivia, words) := group rest
    if token.isTrivia then (token :: trivia, words) else ([], ⟨token, trivia⟩ :: words)

def ofTokens (tokens : List Token) : Stream :=
  let (leading, words) := group (tokens.takeWhile (·.kind != .eof))
  ⟨leading, words.toArray, Tape.finalOf tokens⟩

def size (stream : Stream) : Nat := stream.words.size

def tokenAt (stream : Stream) (position : Nat) : Token :=
  match stream.words[position]? with
  | some word => word.token
  | none => stream.final

def offsetAt (stream : Stream) (position : Nat) : Nat := (stream.tokenAt position).span.start

def start (stream : Stream) : Nat :=
  match stream.leading with
  | token :: _ => token.span.start
  | [] => stream.offsetAt 0

end Stream

end LosslessTree
