import LosslessTree.Token.Source

/-!
Reading a text one token at a time. The flaw of a token stays until it is taken or the next
flawed token replaces it.
-/

namespace LosslessTree

structure Reading where
  source : List Char
  rest : List Char
  offset : Nat
  flaw : Option Flaw
  deriving Inhabited

namespace Reading

def start (text : String) : Reading := ⟨text.toList, text.toList, 0, none⟩

/-- Reads one token. At the end of the text nothing changes any more. -/
def next (reading : Reading) : TokenKind × Reading :=
  match reading.rest with
  | [] => (.eof, reading)
  | c :: rest =>
    let lexeme := Lexeme.first c rest
    let token := Token.ofLexeme lexeme reading.offset (c :: rest.take lexeme.more)
    (token.kind, { reading with
      rest := rest.drop lexeme.more
      offset := token.span.stop
      flaw := lexeme.flaw?.or reading.flaw })

def takeFlaw (reading : Reading) : Option Flaw × Reading :=
  (reading.flaw, { reading with flaw := none })

/-- The characters that end after byte `start` and not after byte `stop`, counted from
`offset`. -/
def charsBetween (start stop : Nat) : (offset : Nat) → List Char → List Char
  | _, [] => []
  | offset, c :: rest =>
    let offset := offset + c.utf8Size
    if start < offset ∧ offset ≤ stop then c :: charsBetween start stop offset rest
    else charsBetween start stop offset rest

/-- The source between two offsets, which need not lie inside it. -/
def slice (reading : Reading) (start stop : Nat) : String :=
  String.ofList (charsBetween start stop 0 reading.source)

end Reading

end LosslessTree
