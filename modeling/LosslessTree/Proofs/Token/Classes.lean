import LosslessTree.Proofs.Token.Tiling

/-!
Where a token comes from. The first character of a lexeme tells what reads it, and each reader gives
tokens of its own kinds, so the kind of a token tells how it was read.
-/

namespace LosslessTree

namespace Lexeme

open Text

/-- How a lexeme is read behind its first character, and of which kinds it may be then. -/
inductive Begins (c : Char) (rest : List Char) : List TokenKind → Lexeme → Prop where
  | blanks (hblank : isBlank c = true) : Begins c rest [.whitespace] (blanks rest)
  | commentary {lexeme : Lexeme} (hcommentary : commentary? c rest = some lexeme) :
      Begins c rest [.lineComment, .blockComment, .pragma, .flawed] lexeme
  | number (hdigit : isDecimalDigit c = true) :
      Begins c rest [.integer, .float, .flawed] (number c rest)
  | constructorName (hupper : isUppercase c = true) :
      Begins c rest [.conId, .qualifiedConId, .qualifiedVarId, .conSym, .varSym]
        (constructorName rest)
  | variableName (hupper : isUppercase c = false) (hstart : isVariableStart c = true) :
      Begins c rest (.varId :: TokenKind.reservedWords.map (·.2)) (variableName c rest)
  | string (hquote : c = '"') : Begins c rest [.string, .flawed] (string rest)
  | character (hquote : c = '\'') : Begins c rest [.char, .flawed] (character rest)
  | punctuation {kind : TokenKind} (hkind : punctuation? c = some kind) :
      Begins c rest [.leftParen, .rightParen, .leftBracket, .rightBracket, .leftBrace, .rightBrace,
        .comma, .semi, .backquote] (ofKind kind 0)
  | operator (hsymbol : isSymbol c = true) :
      Begins c rest (.conSym :: .varSym :: TokenKind.reservedOperators.map (·.2)) (operator c rest)
  | stray : Begins c rest [.flawed] (ofFlaw .strayCharacter 0)

theorem begins_first (c : Char) (rest : List Char) :
    ∃ kinds, Begins c rest kinds (first c rest) := by
  unfold first
  split
  · next hblank => exact ⟨_, .blanks hblank⟩
  split
  · next hcommentary => exact ⟨_, .commentary hcommentary⟩
  split
  · next hdigit => exact ⟨_, .number hdigit⟩
  split
  · next hupper => exact ⟨_, .constructorName hupper⟩
  next hupper =>
  split
  · next hstart => exact ⟨_, .variableName (Bool.eq_false_iff.mpr hupper) hstart⟩
  split
  · next hquote => exact ⟨_, .string hquote⟩
  split
  · next hquote => exact ⟨_, .character hquote⟩
  split
  · next hkind => exact ⟨_, .punctuation hkind⟩
  split
  · next hsymbol => exact ⟨_, .operator hsymbol⟩
  · exact ⟨_, .stray⟩

/-! ## The kinds of each reader -/

theorem kind_commentary? {c : Char} {rest : List Char} {lexeme : Lexeme}
    (hcommentary : commentary? c rest = some lexeme) :
    lexeme.kind ∈ [.lineComment, .blockComment, .pragma, .flawed] := by
  unfold commentary? at hcommentary
  split at hcommentary
  · split at hcommentary
    · obtain rfl := Option.some.inj hcommentary
      exact List.mem_cons_self
    · cases hcommentary
  · obtain rfl := Option.some.inj hcommentary
    unfold pragma
    split <;> simp
  · obtain rfl := Option.some.inj hcommentary
    unfold blockComment
    split <;> simp
  · cases hcommentary

theorem kind_number (c : Char) (rest : List Char) :
    (number c rest).kind ∈ [.integer, .float, .flawed] := by
  have hdecimal : (decimal rest).kind ∈ [.integer, .float, .flawed] := by
    unfold decimal
    dsimp only [kind_ofKind]
    split <;> decide
  unfold number
  split
  · split
    · unfold based
      split <;> simp
    · exact hdecimal
  · exact hdecimal

theorem kind_string (rest : List Char) : (string rest).kind ∈ [.string, .flawed] := by
  unfold string
  split <;> simp

theorem kind_character (rest : List Char) : (character rest).kind ∈ [.char, .flawed] := by
  have hclosed (rest : List Char) (length : Nat) :
      (closed rest length).kind ∈ [.char, .flawed] := by
    unfold closed
    split <;> simp
  unfold character
  split
  · decide
  · decide
  · exact hclosed _ _
  · split
    · decide
    · exact hclosed _ _

theorem kind_punctuation? {c : Char} {kind : TokenKind} (hkind : punctuation? c = some kind) :
    kind ∈ [.leftParen, .rightParen, .leftBracket, .rightBracket, .leftBrace, .rightBrace, .comma,
      .semi, .backquote] := by
  unfold punctuation? at hkind
  split at hkind
  case h_10 => cases hkind
  all_goals
    obtain rfl := Option.some.inj hkind
    decide

theorem kind_qualification (kind : TokenKind) (rest : List Char) :
    (qualification kind rest).1 ∈
      [kind, .qualifiedConId, .qualifiedVarId, .conSym, .varSym] := by
  fun_induction qualification kind rest with
  | case1 kind first rest name hupper more length heq ih =>
      rw [heq] at ih
      apply List.mem_cons_of_mem
      simpa using ih
  | case2 kind first rest name hupper hstart hword => exact List.mem_cons_self
  | case3 kind first rest name hupper hstart hword => simp
  | case4 kind first rest hupper hstart hsymbol =>
      dsimp only
      split <;> simp
  | case5 kind first rest hupper hstart hsymbol => exact List.mem_cons_self
  | case6 kind rest hdot => exact List.mem_cons_self

theorem mem_of_lookup {entries : List (String × TokenKind)} {word : String} {kind : TokenKind}
    (hlookup : entries.lookup word = some kind) : (word, kind) ∈ entries := by
  obtain ⟨before, after, heq, -⟩ := List.lookup_eq_some_iff.mp hlookup
  rw [heq]
  exact List.mem_append_right _ List.mem_cons_self

theorem kind_ofWord (word : List Char) :
    TokenKind.ofWord word ∈ TokenKind.varId :: TokenKind.reservedWords.map (·.2) := by
  unfold TokenKind.ofWord
  cases hlookup : TokenKind.reservedWords.lookup (String.ofList word) with
  | none => exact List.mem_cons_self
  | some kind =>
      apply List.mem_cons_of_mem
      exact List.mem_map_of_mem (mem_of_lookup hlookup)

theorem kind_ofOperator (operator : List Char) :
    TokenKind.ofOperator operator ∈
      .conSym :: .varSym :: TokenKind.reservedOperators.map (·.2) := by
  unfold TokenKind.ofOperator
  split
  · next kind hlookup =>
      apply List.mem_cons_of_mem
      apply List.mem_cons_of_mem
      exact List.mem_map_of_mem (mem_of_lookup hlookup)
  · split <;> simp

theorem Begins.kind_mem {c : Char} {rest : List Char} {kinds : List TokenKind} {lexeme : Lexeme}
    (hbegins : Begins c rest kinds lexeme) : lexeme.kind ∈ kinds := by
  cases hbegins with
  | blanks => exact List.mem_singleton_self _
  | commentary hcommentary => exact kind_commentary? hcommentary
  | number => exact kind_number c rest
  | constructorName => exact kind_qualification .conId _
  | variableName => exact kind_ofWord _
  | string => exact kind_string rest
  | character => exact kind_character rest
  | punctuation hkind => exact kind_punctuation? hkind
  | operator => exact kind_ofOperator _
  | stray => exact List.mem_singleton_self _

/-! ## Readers told by the kind -/

section

variable {c : Char} {rest : List Char}

theorem character_of_kind (hkind : (first c rest).kind = .char) :
    c = '\'' ∧ first c rest = character rest := by
  obtain ⟨kinds, hbegins⟩ := begins_first c rest
  have hmem := hbegins.kind_mem
  generalize first c rest = lexeme at hkind hbegins hmem
  rw [hkind] at hmem
  cases hbegins with
  | character hquote => exact ⟨hquote, rfl⟩
  | _ => exact absurd hmem (by decide)

theorem number_of_kind
    (hkind : (first c rest).kind = .integer ∨ (first c rest).kind = .float) :
    isDecimalDigit c = true ∧ first c rest = number c rest := by
  obtain ⟨kinds, hbegins⟩ := begins_first c rest
  have hmem := hbegins.kind_mem
  generalize first c rest = lexeme at hkind hbegins hmem
  cases hbegins with
  | number hdigit => exact ⟨hdigit, rfl⟩
  | _ => rcases hkind with hkind | hkind <;> exact absurd (hkind ▸ hmem) (by decide)

theorem constructorName_of_kind
    (hkind : (first c rest).kind = .qualifiedConId ∨ (first c rest).kind = .qualifiedVarId) :
    isUppercase c = true ∧ first c rest = constructorName rest := by
  obtain ⟨kinds, hbegins⟩ := begins_first c rest
  have hmem := hbegins.kind_mem
  generalize first c rest = lexeme at hkind hbegins hmem
  cases hbegins with
  | constructorName hupper => exact ⟨hupper, rfl⟩
  | _ => rcases hkind with hkind | hkind <;> exact absurd (hkind ▸ hmem) (by decide)

end

end Lexeme

end LosslessTree
