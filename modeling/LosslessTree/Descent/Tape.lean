import LosslessTree.Token.Basic

/-!
Tokens as a parser reads them, up to the first end of the text. Blanks and comments are among them;
indices count them like all others.
-/

namespace LosslessTree

structure Tape where
  /-- Those before the end of the text. -/
  tokens : Array Token
  final : Token

namespace Tape

/-- The first end of text, or one put after the last token. -/
def finalOf (tokens : List Token) : Token :=
  match tokens.find? (·.kind = .eof) with
  | some final => final
  | none => .eof ((tokens.getLast?.map (·.span.stop)).getD 0)

/-- Tokens after the first end of text do not count. -/
def ofTokens (tokens : List Token) : Tape :=
  ⟨(tokens.takeWhile (·.kind != .eof)).toArray, finalOf tokens⟩

def size (tape : Tape) : Nat := tape.tokens.size

/-- The token at an index; the end of the text beyond the last one. -/
def tokenAt (tape : Tape) (index : Nat) : Token :=
  match tape.tokens[index]? with
  | some token => token
  | none => tape.final

def offsetAt (tape : Tape) (index : Nat) : Nat := (tape.tokenAt index).span.start

def nextFrom (tape : Tape) (index : Nat) : Nat :=
  if index < tape.size then
    if (tape.tokenAt index).isTrivia then tape.nextFrom (index + 1) else index
  else tape.size
termination_by tape.size - index

/-- Where a window of so many significant tokens ends that begins at an index. -/
def windowEnd (tape : Tape) (room index : Nat) : Nat :=
  if index < tape.size then
    if (tape.tokenAt index).isTrivia then tape.windowEnd room (index + 1)
    else
      match room with
      | 0 => index
      | room + 1 => tape.windowEnd room (index + 1)
  else tape.size
termination_by tape.size - index

theorem lt_nextFrom (tape : Tape) {index : Nat}
    (hnext : tape.nextFrom (index + 1) < tape.size) : index < tape.nextFrom (index + 1) := by
  generalize hfrom : index + 1 = start at hnext ⊢
  suffices hle : start ≤ tape.nextFrom start by omega
  clear hfrom
  fun_induction tape.nextFrom start with
  | case1 start _ _ ih => exact Nat.le_trans (Nat.le_succ start) (ih hnext)
  | case2 start => exact Nat.le_refl start
  | case3 start => exact absurd hnext (Nat.lt_irrefl _)

end Tape

end LosslessTree
