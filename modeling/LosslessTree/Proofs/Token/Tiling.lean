import LosslessTree.Parse.Basic
import LosslessTree.Proofs.Text.Piece
import LosslessTree.Token.Source

/-!
The tokens of a text, one behind the other, are the text. Marks of indentation stand between them
and read as nothing, and the end of the text comes last.
-/

namespace LosslessTree

/-- The kinds of tokens that are neither blanks nor comments nor the end. -/
def TokenKind.IsContent (kind : TokenKind) : Prop := kind ≠ .eof ∧ kind.isTrivia = false

instance : DecidablePred TokenKind.IsContent := fun _ => instDecidableAnd

namespace Lexeme

open Text

@[simp] theorem kind_ofKind (kind : TokenKind) (more : Nat) : (ofKind kind more).kind = kind := rfl

@[simp] theorem kind_ofFlaw (flaw : Flaw) (more : Nat) : (ofFlaw flaw more).kind = .flawed := rfl

theorem qualification_content {kind : TokenKind} (rest : List Char) (hkind : kind.IsContent) :
    (qualification kind rest).1.IsContent := by
  fun_induction qualification kind rest <;> grind [TokenKind.IsContent, TokenKind.isTrivia]

theorem ofWord_content (word : List Char) : (TokenKind.ofWord word).IsContent := by
  have hall : ∀ entry ∈ TokenKind.reservedWords, entry.2.IsContent := by decide
  unfold TokenKind.ofWord
  cases hlookup : TokenKind.reservedWords.lookup (String.ofList word) with
  | none => exact ⟨TokenKind.noConfusion, rfl⟩
  | some kind =>
      obtain ⟨before, after, heq, -⟩ := List.lookup_eq_some_iff.mp hlookup
      exact hall (_, kind) (heq ▸ List.mem_append_right _ List.mem_cons_self)

theorem ofOperator_content (operator : List Char) : (TokenKind.ofOperator operator).IsContent := by
  have hall : ∀ entry ∈ TokenKind.reservedOperators, entry.2.IsContent := by decide
  unfold TokenKind.ofOperator
  split
  · next kind hlookup =>
      obtain ⟨before, after, heq, -⟩ := List.lookup_eq_some_iff.mp hlookup
      exact hall (_, kind) (heq ▸ List.mem_append_right _ List.mem_cons_self)
  · split <;> exact ⟨TokenKind.noConfusion, rfl⟩

theorem punctuation?_content {c : Char} {kind : TokenKind} (hkind : punctuation? c = some kind) :
    kind.IsContent := by
  unfold punctuation? at hkind
  split at hkind <;> grind [TokenKind.IsContent, TokenKind.isTrivia]

theorem number_content (c : Char) (rest : List Char) : (number c rest).kind.IsContent := by
  have hdecimal : (decimal rest).kind.IsContent := by
    simp only [decimal, kind_ofKind]
    split <;> exact ⟨TokenKind.noConfusion, rfl⟩
  have hbased (base : Nat) (digits : List Char) : (based base digits).kind.IsContent := by
    unfold based
    split <;> exact ⟨TokenKind.noConfusion, rfl⟩
  unfold number
  split
  · split
    · exact hbased _ _
    · exact hdecimal
  · exact hdecimal

theorem string_content (rest : List Char) : (string rest).kind.IsContent := by
  unfold string
  split <;> exact ⟨TokenKind.noConfusion, rfl⟩

theorem character_content (rest : List Char) : (character rest).kind.IsContent := by
  have hclosed (rest : List Char) (length : Nat) : (closed rest length).kind.IsContent := by
    unfold closed
    split <;> exact ⟨TokenKind.noConfusion, rfl⟩
  unfold character
  split
  · exact ⟨TokenKind.noConfusion, rfl⟩
  · exact ⟨TokenKind.noConfusion, rfl⟩
  · exact hclosed _ _
  · split
    · exact ⟨TokenKind.noConfusion, rfl⟩
    · exact hclosed _ _

theorem first_cases (c : Char) (rest : List Char) :
    (isBlank c = true ∧ first c rest = blanks rest) ∨
      (isBlank c = false ∧ commentary? c rest = some (first c rest)) ∨
      (isBlank c = false ∧ (first c rest).kind.IsContent) := by
  unfold first
  by_cases hblank : isBlank c = true
  · rw [if_pos hblank]
    exact .inl ⟨hblank, rfl⟩
  · rw [if_neg hblank]
    refine .inr ?_
    have hblank := Bool.eq_false_iff.mpr hblank
    cases hcommentary : commentary? c rest with
    | some lexeme => exact .inl ⟨hblank, rfl⟩
    | none =>
        refine .inr ⟨hblank, ?_⟩
        dsimp only
        repeat' split
        · exact number_content c rest
        · exact qualification_content _ ⟨TokenKind.noConfusion, rfl⟩
        · exact ofWord_content _
        · exact string_content rest
        · exact character_content rest
        · next hkind => exact punctuation?_content hkind
        · exact ofOperator_content _
        · exact ⟨TokenKind.noConfusion, rfl⟩

theorem commentary?_ne_eof {c : Char} {rest : List Char} {lexeme : Lexeme}
    (hlexeme : commentary? c rest = some lexeme) : lexeme.kind ≠ .eof := by
  unfold commentary? at hlexeme
  split at hlexeme <;> grind [Lexeme.kind, lineComment, pragma, blockComment, ofKind, ofFlaw]

theorem kind_ne_eof (c : Char) (rest : List Char) : (first c rest).kind ≠ .eof := by
  rcases first_cases c rest with ⟨-, heq⟩ | ⟨-, hcommentary⟩ | ⟨-, hcontent⟩
  · rw [heq]
    exact TokenKind.noConfusion
  · exact commentary?_ne_eof hcommentary
  · exact hcontent.1

end Lexeme

/-- Tokens that stand end to end between two offsets of a text and read as what is there. -/
structure Token.Tile (text : String) (low : Nat) (tokens : List Token) (high : Nat) : Prop where
  joined : Span.Joined low (tokens.map (·.span)) high
  reads : ∀ token ∈ tokens, Text.Reads text token.span.start token.text token.span.stop

namespace Token

variable {text : String} {low middle high : Nat} {tokens more : List Token}

namespace Tile

theorem cons {token : Token} (htoken : Text.Reads text token.span.start token.text token.span.stop)
    (hrest : Tile text token.span.stop tokens high) :
    Tile text token.span.start (token :: tokens) high :=
  ⟨⟨rfl, hrest.joined⟩, List.forall_mem_cons.mpr ⟨htoken, hrest.reads⟩⟩

theorem tail {token : Token} (htile : Tile text low (token :: tokens) high) :
    token.span.start = low ∧ Text.Reads text token.span.start token.text token.span.stop ∧
      Tile text token.span.stop tokens high :=
  ⟨htile.joined.1, htile.reads token List.mem_cons_self, htile.joined.2,
    fun other hother => htile.reads other (List.mem_cons_of_mem _ hother)⟩

theorem split (htile : Tile text low (tokens ++ more) high) :
    ∃ middle, Tile text low tokens middle ∧ Tile text middle more high := by
  obtain ⟨hjoined, hreads⟩ := htile
  rw [List.map_append] at hjoined
  obtain ⟨middle, hfirst, hsecond⟩ := hjoined.split
  rw [List.forall_mem_append] at hreads
  exact ⟨middle, ⟨hfirst, hreads.1⟩, hsecond, hreads.2⟩

end Tile

theorem scan_tile {front : String} {chars : List Char}
    (htext : text = front ++ String.ofList chars) :
    Tile text front.utf8ByteSize (scan front.utf8ByteSize chars) text.utf8ByteSize := by
  generalize hoffset : front.utf8ByteSize = offset
  fun_induction scan offset chars generalizing front with
  | case1 offset =>
      obtain rfl : text = front := by simpa using htext
      subst hoffset
      exact ⟨⟨rfl, rfl⟩, List.forall_mem_singleton.mpr (Text.Reads.at_end text)⟩
  | case2 offset c rest lexeme token =>
      rename_i ih
      subst hoffset
      have hsplit : text = front ++ token.text ++ String.ofList (rest.drop lexeme.more) := by
        have hchars : c :: rest = (c :: rest.take lexeme.more) ++ rest.drop lexeme.more := by simp
        rw [htext, hchars, String.ofList_append, String.append_assoc]
        rfl
      have hstop : (front ++ token.text).utf8ByteSize = token.span.stop :=
        String.utf8ByteSize_append
      exact .cons ⟨front, _, hsplit, rfl, hstop.symm⟩ (ih hsplit hstop)

theorem scan_ends (offset : Nat) (chars : List Char) :
    ∃ front stop, scan offset chars = front ++ [eof stop] ∧ ∀ token ∈ front, token.kind ≠ .eof := by
  induction offset, chars using scan.induct with
  | case1 offset =>
      rw [scan]
      exact ⟨[], offset, rfl, fun _ htoken => absurd htoken List.not_mem_nil⟩
  | case2 offset c rest lexeme token ih =>
      obtain ⟨front, stop, heq, hfront⟩ := ih
      rw [scan]
      exact ⟨token :: front, stop, congrArg (token :: ·) heq,
        List.forall_mem_cons.mpr ⟨Lexeme.kind_ne_eof c rest, hfront⟩⟩

theorem isVirtual_zeroWidth {kind : TokenKind} (hkind : kind ≠ .eof) (offset : Nat) :
    (zeroWidth kind offset).isVirtual = true := by
  simp [isVirtual, zeroWidth, Span.isEmpty, hkind]

theorem isVirtual_eof (offset : Nat) : (eof offset).isVirtual = false := by
  simp [isVirtual, eof, zeroWidth]

theorem scan_wide {offset : Nat} {text : List Char} {token : Token}
    (htoken : token ∈ scan offset text) (hkind : token.kind ≠ .eof) : token.isVirtual = false := by
  induction offset, text using scan.induct with
  | case1 offset =>
      rw [scan, List.mem_singleton] at htoken
      exact absurd (congrArg Token.kind htoken) hkind
  | case2 offset c rest lexeme first ih =>
      rw [scan] at htoken
      rcases List.mem_cons.mp htoken with rfl | hrest
      · have hsize := c.utf8Size_pos
        simp [isVirtual, Span.isEmpty, ofLexeme, covering, String.ofList_cons]
        omega
      · exact ih hrest

end Token

namespace Layout

open Token

theorem run_of_trivia {token : Token} (htrivia : token.isTrivia = true) (state : State)
    (rest : List Token) : run state (token :: rest) = token :: run (pass token state) rest := by
  rw [run, if_pos htrivia]

theorem run_of_significant {token : Token} (htrivia : token.isTrivia = false)
    (hkind : token.kind ≠ .eof) (state : State) (rest : List Token) :
    run state (token :: rest) =
      marksAt token (step token state).1 ++ token :: run (step token state).2 rest := by
  rw [run, if_neg (by simp [htrivia]), if_neg hkind]

variable {text : String} {low high : Nat}

theorem marks_tile {token : Token} {rest : List Token}
    (htile : Tile text token.span.start (token :: rest) high) (marks : List TokenKind) :
    Tile text token.span.start (marksAt token marks ++ token :: rest) high := by
  induction marks with
  | nil => exact htile
  | cons mark marks ih =>
      have hmark (mark : TokenKind) : Text.Reads text (zeroWidth mark token.span.start).span.start
          (zeroWidth mark token.span.start).text (zeroWidth mark token.span.start).span.stop :=
        htile.tail.2.1.at_start
      exact .cons (hmark mark) ih

theorem run_tile (state : State) {tokens : List Token} {stop : Nat}
    (hends : ∀ token ∈ tokens, token.kind ≠ .eof)
    (htokens : Tile text low (tokens ++ [eof stop]) high) :
    Tile text low (run state (tokens ++ [eof stop])) high := by
  induction tokens generalizing low state with
  | nil =>
      obtain ⟨rfl, -⟩ := htokens.joined
      exact marks_tile htokens (finish state)
  | cons token rest ih =>
      obtain ⟨hkind, hrest⟩ := List.forall_mem_cons.mp hends
      obtain ⟨rfl, hreads, htile⟩ := htokens.tail
      rw [List.cons_append]
      cases htrivia : token.isTrivia with
      | true =>
          rw [run_of_trivia htrivia]
          exact .cons hreads (ih _ hrest htile)
      | false =>
          rw [run_of_significant htrivia hkind]
          exact marks_tile (.cons hreads (ih _ hrest htile)) _

def IsMark (kind : TokenKind) : Prop := kind ∈ [TokenKind.leftBrace, .rightBrace, .semi]

theorem IsMark.ne_eof {kind : TokenKind} (hmark : IsMark kind) : kind ≠ .eof := by
  rintro rfl
  simp [IsMark] at hmark

theorem IsMark.not_trivia {kind : TokenKind} (hmark : IsMark kind) : kind.isTrivia = false := by
  simp only [IsMark, List.mem_cons, List.not_mem_nil, or_false] at hmark
  rcases hmark with rfl | rfl | rfl <;> rfl

theorem openPending_marks (kind : TokenKind) (state : State) :
    ∀ mark ∈ (openPending kind state).1, IsMark mark := by
  unfold openPending
  repeat' split
  all_goals simp [IsMark]

theorem replicate_marks (count : Nat) :
    ∀ mark ∈ List.replicate count TokenKind.rightBrace, IsMark mark := by
  intro mark hmark
  rw [List.eq_of_mem_replicate hmark]
  simp [IsMark]

theorem beginLine_marks (column : Nat) (contexts : List Context) :
    ∀ mark ∈ (beginLine column contexts).1, IsMark mark := by
  refine List.forall_mem_append.mpr ⟨replicate_marks _, fun mark hmark => ?_⟩
  split at hmark
  · rw [List.mem_singleton.mp hmark]
    simp [IsMark]
  · cases hmark

theorem step_marks (token : Token) (state : State) :
    ∀ mark ∈ (step token state).1, IsMark mark := by
  have hopen := openPending_marks token.kind (decideModule token.kind state)
  unfold step
  dsimp only
  generalize openPending token.kind (decideModule token.kind state) = opening at hopen ⊢
  refine List.forall_mem_append.mpr ⟨List.forall_mem_append.mpr ⟨hopen, ?_⟩, replicate_marks _⟩
  split
  · exact beginLine_marks _ _
  · exact fun _ hmark => absurd hmark List.not_mem_nil

theorem finish_marks (state : State) : ∀ mark ∈ finish state, IsMark mark := by
  refine List.forall_mem_append.mpr ⟨fun mark hmark => ?_, fun mark hmark => ?_⟩
  · split at hmark
    · simp only [List.mem_cons, List.not_mem_nil, or_false] at hmark
      rcases hmark with rfl | rfl <;> simp [IsMark]
    · cases hmark
  · obtain ⟨context, -, rfl⟩ := List.mem_map.mp hmark
    simp [IsMark]

theorem run_ends (state : State) {tokens : List Token} (stop : Nat)
    (hends : ∀ token ∈ tokens, token.kind ≠ .eof) :
    ∃ front, run state (tokens ++ [eof stop]) = front ++ [eof stop] ∧
      ∀ token ∈ front, token.kind ≠ .eof := by
  have hmarks {token : Token} {marks : List TokenKind} (hmarks : ∀ mark ∈ marks, IsMark mark) :
      ∀ other ∈ marksAt token marks, other.kind ≠ .eof := by
    intro other hother
    obtain ⟨mark, hmark, rfl⟩ := List.mem_map.mp hother
    exact (hmarks mark hmark).ne_eof
  induction tokens generalizing state with
  | nil => exact ⟨_, rfl, hmarks (finish_marks state)⟩
  | cons token rest ih =>
      obtain ⟨hkind, hrest⟩ := List.forall_mem_cons.mp hends
      rw [List.cons_append]
      cases htrivia : token.isTrivia with
      | true =>
          obtain ⟨front, heq, hfront⟩ := ih (pass token state) hrest
          rw [run_of_trivia htrivia, heq]
          exact ⟨token :: front, rfl, List.forall_mem_cons.mpr ⟨hkind, hfront⟩⟩
      | false =>
          obtain ⟨front, heq, hfront⟩ := ih (step token state).2 hrest
          rw [run_of_significant htrivia hkind, heq]
          refine ⟨marksAt token (step token state).1 ++ token :: front, by simp, ?_⟩
          exact List.forall_mem_append.mpr
            ⟨hmarks (step_marks token state), List.forall_mem_cons.mpr ⟨hkind, hfront⟩⟩

end Layout

theorem tokensOfText_tile (settings : Settings) (text : String) :
    Token.Tile text 0 (tokensOfText settings text) text.utf8ByteSize := by
  obtain ⟨front, stop, heq, hfront⟩ := Token.scan_ends 0 text.toList
  have hscan : Token.Tile text 0 (Token.scan 0 text.toList) text.utf8ByteSize :=
    Token.scan_tile (show text = "" ++ String.ofList text.toList by simp)
  rw [heq] at hscan
  unfold tokensOfText Layout.insertMarks Token.ofText
  rw [heq]
  exact Layout.run_tile _ hfront hscan

theorem tokensOfText_ends (settings : Settings) (text : String) :
    ∃ front stop, tokensOfText settings text = front ++ [Token.eof stop] ∧
      ∀ token ∈ front, token.kind ≠ .eof := by
  obtain ⟨front, stop, heq, hfront⟩ := Token.scan_ends 0 text.toList
  obtain ⟨others, hothers, hkinds⟩ :=
    Layout.run_ends (Layout.start settings.layout) stop hfront
  unfold tokensOfText Layout.insertMarks Token.ofText
  exact ⟨others, stop, by rw [heq, hothers], hkinds⟩

end LosslessTree
