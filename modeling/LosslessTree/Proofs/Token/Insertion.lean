import LosslessTree.Proofs.Token.Exchange
import LosslessTree.Proofs.Token.Same
import LosslessTree.Proofs.Token.Tiling

/-!
Text put in between two tokens. Where a token stands behind blanks or a comment, a closing bracket and
a line break with blanks can be put in front of it: they read as two tokens, and all other tokens
stay as they are.
-/

namespace LosslessTree

open Text

theorem Text.all_of_runLength {test : Char → Bool} {front back : List Char}
    (hrun : front.length ≤ runLength test (front ++ back)) : ∀ c ∈ front, test c = true := by
  induction front with
  | nil => exact fun _ hc => absurd hc List.not_mem_nil
  | cons c front ih =>
      cases htest : test c with
      | true =>
          have hrest : front.length ≤ runLength test (front ++ back) := by
            simpa [runLength, htest] using hrun
          exact List.forall_mem_cons.mpr ⟨htest, ih hrest⟩
      | false => simp [runLength, htest] at hrun

theorem Text.stops_of_runLength {test : Char → Bool} {next : Char} {front back : List Char}
    (hrun : runLength test (front ++ next :: back) = front.length) : test next = false := by
  induction front with
  | nil =>
      by_contra hnext
      simp [runLength, eq_true_of_ne_false hnext] at hrun
  | cons c front ih =>
      have hc : test c = true :=
        all_of_runLength (Nat.le_of_eq hrun.symm) c List.mem_cons_self
      exact ih (by simpa [runLength, hc] using hrun)

namespace Lexeme

theorem first_closing {c : Char} (hclosing : c = ')' ∨ c = ']') (rest : List Char) :
    ∃ kind : TokenKind, (kind = .rightParen ∨ kind = .rightBracket) ∧
      first c rest = ofKind kind 0 := by
  rcases hclosing with rfl | rfl
  · exact ⟨.rightParen, .inl rfl, rfl⟩
  · exact ⟨.rightBracket, .inr rfl, rfl⟩

theorem first_blanks {c : Char} {front back : List Char} (hfirst : isBlank c = true)
    (hfront : ∀ c ∈ front, isBlank c = true) (hback : ∀ c ∈ back.head?, isBlank c = false) :
    first c (front ++ back) = ofKind .whitespace front.length := by
  have hrun : runLength isBlank (front ++ back) = front.length := by
    induction front with
    | nil =>
        cases back with
        | nil => rfl
        | cons c back => simp [runLength, hback c rfl]
    | cons c front ih =>
        obtain ⟨hc, hfront⟩ := List.forall_mem_cons.mp hfront
        simpa [runLength, hc] using ih hfront
  simp [first, hfirst, blanks, hrun]

theorem first_of_commentary {c : Char} {rest : List Char} {lexeme : Lexeme}
    (hblank : isBlank c = false) (hlexeme : commentary? c rest = some lexeme) :
    first c rest = lexeme := by
  simp [first, hblank, hlexeme]

/-- Blanks and block comments in front of something stay the same in front of what is no blank. -/
theorem first_again {c : Char} {front back : List Char} (other : List Char)
    (htrivia : (first c (front ++ back)).kind.isTrivia = true)
    (hline : (first c (front ++ back)).kind ≠ .lineComment)
    (hmore : (first c (front ++ back)).more = front.length)
    (hother : ∀ c ∈ other.head?, isBlank c = false) :
    isSeparator c = true ∧ first c (front ++ other) = first c (front ++ back) := by
  rcases first_cases c (front ++ back) with ⟨hblank, heq⟩ | ⟨hblank, hcommentary⟩ | ⟨-, hcontent⟩
  · rw [heq] at hmore ⊢
    change runLength isBlank (front ++ back) = front.length at hmore
    refine ⟨by simp [isSeparator, hblank], ?_⟩
    rw [first_blanks hblank (all_of_runLength (Nat.le_of_eq hmore.symm)) hother, blanks, hmore]
  · rw [commentary?.eq_def] at hcommentary
    split at hcommentary
    · split at hcommentary
      · exact absurd (congrArg kind (Option.some.inj hcommentary)).symm hline
      · cases hcommentary
    · next rest hrest =>
        rw [← Option.some.inj hcommentary] at htrivia
        unfold pragma at htrivia
        split at htrivia <;> cases htrivia
    · next rest hpragma hrest =>
        rw [← Option.some.inj hcommentary] at htrivia hmore ⊢
        refine ⟨by decide, ?_⟩
        cases hlength : commentLength? 0 rest with
        | none =>
            rw [blockComment, hlength] at htrivia
            cases htrivia
        | some length =>
            rw [blockComment, hlength] at hmore ⊢
            change 1 + length = front.length at hmore
            obtain ⟨front, rfl, rfl⟩ := cons_of_append hrest (by omega)
            rw [List.length_cons] at hmore
            obtain ⟨hother, hpos⟩ := commentLength?_exchange other hlength (by omega)
            obtain ⟨c, front, rfl⟩ := List.exists_cons_of_length_pos (l := front) (by omega)
            have hhash : ((c :: front) ++ other).head? ≠ some '#' := fun heq =>
              hpragma _ (congrArg (· :: (front ++ back)) (Option.some.inj heq))
            have hfirst := first_of_commentary (by decide) (commentary?_of_comment hhash)
            exact hfirst.trans (by rw [blockComment, hother])
    · cases hcommentary
  · rw [hcontent.2] at htrivia
    cases htrivia

theorem not_blank_of_content {c : Char} {rest : List Char}
    (hcontent : (first c rest).kind.IsContent) : isBlank c = false := by
  rcases first_cases c rest with ⟨-, heq⟩ | ⟨hblank, -⟩ | ⟨hblank, -⟩
  · rw [heq] at hcontent
    cases hcontent.2
  · exact hblank
  · exact hblank

theorem blank_behind_lineComment {c next : Char} {front back : List Char}
    (hkind : (first c (front ++ next :: back)).kind = .lineComment)
    (hmore : (first c (front ++ next :: back)).more = front.length) : isBlank next = true := by
  rcases first_cases c (front ++ next :: back) with ⟨-, heq⟩ | ⟨-, hcommentary⟩ | ⟨-, hcontent⟩
  · rw [heq] at hkind
    cases hkind
  · rw [commentary?.eq_def] at hcommentary
    split at hcommentary
    · split at hcommentary
      · rw [← Option.some.inj hcommentary] at hmore
        change runLength (!isLineEnd ·) (front ++ next :: back) = front.length at hmore
        have hend := stops_of_runLength hmore
        simp only [isLineEnd, Bool.not_eq_false', Bool.or_eq_true, beq_iff_eq] at hend
        rcases hend with rfl | rfl <;> decide
      · cases hcommentary
    · next rest _ =>
        rw [← Option.some.inj hcommentary] at hkind
        unfold pragma at hkind
        split at hkind <;> cases hkind
    · next rest _ _ =>
        rw [← Option.some.inj hcommentary] at hkind
        unfold blockComment at hkind
        split at hkind <;> cases hkind
    · cases hcommentary
  · rw [hkind] at hcontent
    exact absurd hcontent (by decide)

end Lexeme

namespace Token

def chars (tokens : List Token) : List Char := tokens.flatMap (·.text.toList)

theorem chars_cons (token : Token) (tokens : List Token) :
    chars (token :: tokens) = token.text.toList ++ chars tokens := List.flatMap_cons

theorem ofLexeme_stop (lexeme : Lexeme) (offset : Nat) (text more : List Char) :
    (ofLexeme lexeme offset text).span.stop + (String.ofList more).utf8ByteSize =
      offset + (String.ofList (text ++ more)).utf8ByteSize := by
  change offset + (String.ofList text).utf8ByteSize + _ = _
  rw [String.ofList_append, String.utf8ByteSize_append, Nat.add_assoc]

theorem text_ofLexeme (lexeme : Lexeme) (offset : Nat) (text : List Char) :
    (ofLexeme lexeme offset text).text.toList = text := String.toList_ofList

theorem chars_singleton (token : Token) : chars [token] = token.text.toList :=
  List.flatMap_singleton _ _

theorem scan_split {offset : Nat} {text : List Char} {before more : List Token}
    (hscan : scan offset text = before ++ more) (hmore : more ≠ []) :
    ∃ back, text = chars before ++ back ∧
      more = scan (offset + (String.ofList (chars before)).utf8ByteSize) back := by
  induction before generalizing offset text with
  | nil => exact ⟨text, rfl, hscan.symm⟩
  | cons token before ih =>
      cases text with
      | nil =>
          rw [scan] at hscan
          obtain ⟨-, hnil⟩ := List.cons.inj hscan
          exact absurd (List.append_eq_nil_iff.mp hnil.symm).2 hmore
      | cons c rest =>
          rw [scan] at hscan
          obtain ⟨rfl, hrest⟩ := List.cons.inj hscan
          obtain ⟨back, hback, hscan⟩ := ih hrest
          refine ⟨back, ?_, ?_⟩
          · rw [chars_cons, text_ofLexeme, List.append_assoc, ← hback, List.cons_append,
              List.take_append_drop]
          · rw [hscan, ofLexeme_stop, chars_cons, text_ofLexeme]

theorem start_of_scan {offset : Nat} {text : List Char} {token : Token} {after : List Token}
    (hscan : token :: after = scan offset text) : token.span.start = offset := by
  cases text with
  | nil =>
      rw [scan] at hscan
      obtain ⟨rfl, -⟩ := List.cons.inj hscan
      rfl
  | cons c rest =>
      rw [scan] at hscan
      obtain ⟨rfl, -⟩ := List.cons.inj hscan
      rfl

theorem scan_cons_append {offset : Nat} {c : Char} {front back : List Char} {lexeme : Lexeme}
    (hlexeme : Lexeme.first c (front ++ back) = lexeme) (hmore : lexeme.more = front.length) :
    scan offset (c :: (front ++ back)) = ofLexeme lexeme offset (c :: front) ::
      scan (offset + (String.ofList (c :: front)).utf8ByteSize) back := by
  rw [scan, hlexeme, hmore, List.take_left, List.drop_left]
  rfl

theorem scan_token {offset : Nat} {token : Token} {before more : List Token} {left : List Char}
    (hleft : left ≠ [])
    (hscan : scan offset (chars (token :: before) ++ left) = token :: (before ++ more)) :
    ∃ c piece,
      token = ofLexeme (Lexeme.first c (piece ++ chars before ++ left)) offset (c :: piece) ∧
      (Lexeme.first c (piece ++ chars before ++ left)).more = piece.length ∧
      scan token.span.stop (chars before ++ left) = before ++ more := by
  have hpos := List.length_pos_iff.mpr hleft
  generalize htext : chars (token :: before) ++ left = text at hscan
  cases text with
  | nil =>
      have hlength := congrArg List.length htext
      simp only [List.length_append, List.length_nil] at hlength
      omega
  | cons c rest =>
      rw [scan] at hscan
      obtain ⟨rfl, hrest⟩ := List.cons.inj hscan
      rw [chars_cons, text_ofLexeme, List.append_assoc, List.cons_append] at htext
      obtain ⟨-, htext⟩ := List.cons.inj htext
      obtain ⟨piece, hpiece, hmore⟩ : ∃ piece, rest.take (Lexeme.first c rest).more = piece ∧
          (Lexeme.first c rest).more = piece.length := by
        refine ⟨_, rfl, ?_⟩
        have hlength := congrArg List.length htext
        simp only [List.length_append, List.length_take] at hlength ⊢
        omega
      rw [hpiece] at htext hrest ⊢
      rw [← List.append_assoc] at htext
      refine ⟨c, piece, by rw [htext], by rw [htext, hmore], ?_⟩
      rw [← hrest, hmore, ← htext, List.append_assoc, List.drop_left]

/-- Tokens in front of a separator do not depend on what stands behind it. -/
theorem scan_exchange {left right : List Char} (hexchange : Exchange left right) {offset : Nat}
    {before more : List Token}
    (hscan : scan offset (chars before ++ left) = before ++ more) :
    scan offset (chars before ++ right) =
      before ++ scan (offset + (String.ofList (chars before)).utf8ByteSize) right := by
  induction before generalizing offset with
  | nil => rfl
  | cons token before ih =>
      have hleft : left ≠ [] := by
        obtain ⟨_, _, _, -, rfl, -⟩ := hexchange
        exact List.cons_ne_nil _ _
      obtain ⟨c, piece, htoken, hmore, hrest⟩ := scan_token hleft hscan
      have hlexeme : Lexeme.first c (piece ++ (chars before ++ right)) =
          Lexeme.first c (piece ++ chars before ++ left) := by
        rw [← List.append_assoc]
        refine Lexeme.first_exchange hexchange ?_
        rw [hmore, List.length_append]
        exact Nat.le_add_right _ _
      have htext : token.text.toList = c :: piece := by rw [htoken, text_ofLexeme]
      rw [chars_cons, htext, List.append_assoc, List.cons_append, scan_cons_append hlexeme hmore,
        ← htoken, List.cons_append]
      have hstop : offset + (String.ofList (c :: piece)).utf8ByteSize = token.span.stop := by
        rw [htoken]
        rfl
      rw [hstop, ih hrest, ← ofLexeme_stop, htoken]

/-- A text that goes on behind a token of a blank or a comment goes on with any other text that
does not begin with a blank, if the token behind it has content. -/
theorem scan_behind_trivia {offset : Nat} {text : List Char} {last token : Token}
    {after : List Token} (hscan : scan offset text = last :: token :: after)
    (hlast : last.isTrivia = true) (hcontent : token.kind.IsContent) :
    ∃ c front rest, text = c :: front ++ rest ∧ last.text.toList = c :: front ∧
      isSeparator c = true ∧ (∀ next ∈ rest.head?, isBlank next = false) ∧
      token :: after = scan (offset + (String.ofList (c :: front)).utf8ByteSize) rest ∧
      ∀ other : List Char, (∀ next ∈ other.head?, isBlank next = false) →
        scan offset (c :: front ++ other) =
          last :: scan (offset + (String.ofList (c :: front)).utf8ByteSize) other := by
  have hsplit : scan offset text = [last] ++ token :: after := hscan
  obtain ⟨rest, htext, hrest⟩ := scan_split hsplit (List.cons_ne_nil _ _)
  cases text with
  | nil =>
      rw [scan] at hscan
      obtain ⟨-, hnil⟩ := List.cons.inj hscan
      cases hnil
  | cons c chars =>
      cases rest with
      | nil =>
          rw [scan] at hrest
          obtain ⟨rfl, -⟩ := List.cons.inj hrest
          exact absurd rfl hcontent.1
      | cons next others =>
          have hnext : isBlank next = false := by
            rw [scan] at hrest
            obtain ⟨rfl, -⟩ := List.cons.inj hrest
            exact Lexeme.not_blank_of_content hcontent
          obtain ⟨front, rfl, hmore⟩ : ∃ front, chars = front ++ next :: others ∧
              (Lexeme.first c chars).more = front.length := by
            rw [scan] at hscan
            obtain ⟨rfl, -⟩ := List.cons.inj hscan
            rw [chars_singleton, text_ofLexeme, List.cons_append] at htext
            obtain ⟨-, htail⟩ := List.cons.inj htext
            refine ⟨_, htail, ?_⟩
            have hlength := congrArg List.length htail
            simp only [List.length_append, List.length_cons, List.length_take] at hlength ⊢
            omega
          rw [scan_cons_append rfl hmore] at hscan
          obtain ⟨rfl, hafter⟩ := List.cons.inj hscan
          have hline : (Lexeme.first c (front ++ next :: others)).kind ≠ .lineComment := fun hkind => by
            rw [Lexeme.blank_behind_lineComment hkind hmore] at hnext
            cases hnext
          have hplain : ∀ next' ∈ (next :: others).head?, isBlank next' = false := by
            rintro next' ⟨⟩
            exact hnext
          obtain ⟨hseparator, -⟩ := Lexeme.first_again (next :: others) hlast hline hmore hplain
          refine ⟨c, front, next :: others, rfl, text_ofLexeme _ _ _, hseparator, hplain,
            hafter.symm, fun other hother => ?_⟩
          obtain ⟨-, heq⟩ := Lexeme.first_again other hlast hline hmore hother
          exact scan_cons_append heq hmore

theorem scan_stray {text : List Char} {before after : List Token} {last token : Token}
    (hscan : scan 0 text = before ++ last :: token :: after) (hlast : last.isTrivia = true)
    (hcontent : token.kind.IsContent) {c : Char} (hclosing : c = ')' ∨ c = ']') (spaces : Nat) :
    ∃ rest kind offset others, text = chars (before ++ [last]) ++ rest ∧
      scan 0 (chars (before ++ [last]) ++ c :: '\n' :: List.replicate spaces ' ' ++ rest) =
        before ++ last :: covering kind offset (String.ofList [c]) ::
          covering .whitespace (offset + 1) (String.ofList ('\n' :: List.replicate spaces ' ')) ::
            others ∧
      (kind = .rightParen ∨ kind = .rightBracket) ∧
      offset = (String.ofList (chars (before ++ [last]))).utf8ByteSize ∧
      List.Forall₂ Same (token :: after) others := by
  obtain ⟨back, htext, hback⟩ := scan_split hscan (List.cons_ne_nil _ _)
  obtain ⟨first, front, rest, hsplit, hchars, hseparator, hrest, htoken, hagain⟩ :=
    scan_behind_trivia hback.symm hlast hcontent
  have hstretch : chars (before ++ [last]) = chars before ++ (first :: front) := by
    rw [← hchars, ← chars_singleton]
    exact List.flatMap_append
  obtain ⟨kind, hkind, hlexeme⟩ :=
    Lexeme.first_closing hclosing ('\n' :: List.replicate spaces ' ' ++ rest)
  have hplain : ∀ next ∈ (c :: '\n' :: List.replicate spaces ' ' ++ rest).head?,
      isBlank next = false := by
    rintro next ⟨⟩
    rcases hclosing with rfl | rfl <;> decide
  have hblanks : Lexeme.first '\n' (List.replicate spaces ' ' ++ rest) =
      Lexeme.ofKind .whitespace (List.replicate spaces ' ').length :=
    Lexeme.first_blanks (by decide) (fun c hc => List.eq_of_mem_replicate hc ▸ by decide) hrest
  have hexchange : Exchange (first :: front ++ rest)
      (first :: front ++ (c :: '\n' :: List.replicate spaces ' ' ++ rest)) :=
    ⟨first, _, _, hseparator, rfl, rfl⟩
  subst hsplit
  rw [htext] at hscan
  have hnew := scan_exchange hexchange hscan
  have hinserted (offset : Nat) :=
    (@scan_cons_append offset c [] _ _ hlexeme rfl).trans (congrArg _ (scan_cons_append hblanks rfl))
  rw [hagain _ hplain] at hnew
  have hsize : (String.ofList [c]).utf8ByteSize = 1 := by rcases hclosing with rfl | rfl <;> rfl
  have hoffset : (0 + (String.ofList (chars before)).utf8ByteSize +
      (String.ofList (first :: front)).utf8ByteSize) =
        (String.ofList (chars (before ++ [last]))).utf8ByteSize := by
    rw [hstretch, String.ofList_append, String.utf8ByteSize_append, Nat.zero_add]
  generalize 0 + (String.ofList (chars before)).utf8ByteSize +
    (String.ofList (first :: front)).utf8ByteSize = offset at hnew htoken hoffset
  refine ⟨rest, kind, offset, scan (offset + 1 +
      (String.ofList ('\n' :: List.replicate spaces ' ')).utf8ByteSize) rest,
    by rw [hstretch, htext, List.append_assoc], ?_, hkind, hoffset, ?_⟩
  · rw [hstretch, List.append_assoc, List.append_assoc]
    refine hnew.trans (congrArg (before ++ last :: ·) ((hinserted _).trans ?_))
    rw [hsize]
    rfl
  · rw [htoken]
    exact scan_same _ _ _

end Token

end LosslessTree
