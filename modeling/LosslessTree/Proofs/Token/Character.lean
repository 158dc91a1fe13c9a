import LosslessTree.Proofs.Text.Decoding
import LosslessTree.Proofs.Token.Classes
import LosslessTree.Proofs.Token.Extent
import LosslessTree.Proofs.Token.Literal

/-!
Characters in quotes. A plain character stands alone between the quotes. Behind a backslash the
scanner goes on to the next quote, so more than one escape may stand there, and the value is a
character unless it is none, or the escape denotes nothing or has something behind it.
-/

namespace LosslessTree

open Text

namespace Lexeme

/-- What may stand between the quotes of a character. -/
inductive CharacterBody : List Char → Prop where
  | plain {c : Char} (hquote : c ≠ '\'') (hbackslash : c ≠ '\\') (hline : isLineEnd c = false) :
      CharacterBody [c]
  | escaped (c : Char) {tail : List Char} (htail : ∀ c ∈ tail, c ≠ '\'' ∧ isLineEnd c = false) :
      CharacterBody ('\\' :: c :: tail)

theorem closed_of_kind {rest : List Char} {length : Nat}
    (hkind : (closed rest length).kind = .char) :
    (closed rest length).more = length + 1 ∧ ∃ back, rest = rest.take length ++ '\'' :: back := by
  unfold closed at hkind ⊢
  split
  · next hquote =>
      obtain ⟨back, hback⟩ := List.head?_eq_some_iff.mp hquote
      refine ⟨rfl, back, ?_⟩
      rw [← hback, List.take_append_drop]
  · next hopen =>
      rw [if_neg hopen] at hkind
      cases hkind

theorem closed_append (body back : List Char) :
    closed (body ++ '\'' :: back) body.length = ofKind .char (body.length + 1) := by
  rw [closed, List.drop_left, List.head?_cons, if_pos rfl]

/-- A character is read up to the quote behind its body. -/
theorem exists_characterBody {rest : List Char} (hkind : (character rest).kind = .char) :
    ∃ body back, CharacterBody body ∧ rest = body ++ '\'' :: back ∧
      (character rest).more = body.length + 1 := by
  unfold character at hkind ⊢
  split at hkind
  · cases hkind
  · cases hkind
  · next c tail =>
      obtain ⟨hmore, back, hrest⟩ := closed_of_kind hkind
      have htake :
          ('\\' :: c :: tail).take (2 + runLength (fun c => c != '\'' && !isLineEnd c) tail) =
            '\\' :: c :: tail.takeWhile fun c => c != '\'' && !isLineEnd c := by
        rw [Nat.add_comm, List.take_succ_cons, List.take_succ_cons, take_runLength]
      refine ⟨_, back, .escaped c ?_, htake ▸ hrest, ?_⟩
      · intro c hc
        have htest := List.mem_takeWhile_imp hc
        simpa using htest
      · rw [hmore, List.length_cons, List.length_cons, runLength]
        omega
  · next c tail hback hescape =>
      split at hkind
      · cases hkind
      · next hplain =>
          rw [if_neg hplain]
          obtain ⟨hquote, hline⟩ := not_or.mp hplain
          obtain ⟨hmore, back, hrest⟩ := closed_of_kind hkind
          refine ⟨[c], back, .plain hquote ?_ (Bool.eq_false_iff.mpr hline), hrest, hmore⟩
          rintro rfl
          cases tail with
          | nil => exact hback rfl rfl
          | cons next tail => exact hescape next tail rfl rfl

theorem character_of_body {body : List Char} (hbody : CharacterBody body) (back : List Char) :
    character (body ++ '\'' :: back) = ofKind .char (body.length + 1) := by
  cases hbody with
  | plain hquote hbackslash hline =>
      rw [List.singleton_append, character]
      · rw [if_neg (by simp [hquote, hline])]
        exact closed_append [_] back
      · simp [hbackslash]
      · simp [hbackslash]
  | @escaped c tail htail =>
      have hrun : runLength (fun c => c != '\'' && !isLineEnd c) (tail ++ '\'' :: back) =
          tail.length := by
        rw [runLength, List.takeWhile_append_of_pos]
        · simp
        · intro c hc
          simpa using htail c hc
      rw [List.cons_append, List.cons_append, character, hrun]
      rw [Nat.add_comm]
      exact closed_append ('\\' :: c :: tail) back

theorem first_singleQuote (rest : List Char) : first '\'' rest = character rest := by
  have hblank : isBlank '\'' = false := by decide
  unfold first
  rw [if_neg (by simp [hblank])]
  rfl

end Lexeme

namespace Token

open Lexeme

def single (chars : List Char) : String := String.ofList ('\'' :: (chars ++ ['\'']))

theorem exists_single {text : String} {token : Token} (htoken : token ∈ ofText text)
    (hkind : token.kind = .char) : ∃ body, CharacterBody body ∧ token.text = single body := by
  have hcontent : token.kind ≠ .eof := by
    rw [hkind]
    exact TokenKind.noConfusion
  obtain ⟨c, piece, back, htoken, hmore⟩ := exists_lexeme htoken hcontent
  have hlexeme : (first c (piece ++ back)).kind = .char := by
    rw [← hkind, htoken]
    rfl
  obtain ⟨rfl, hcharacter⟩ := character_of_kind hlexeme
  rw [hcharacter] at hlexeme hmore
  obtain ⟨body, behind, hbody, hsplit, hlength⟩ := exists_characterBody hlexeme
  have hpiece : piece = body ++ ['\''] := by
    have hsplit : piece ++ back = (body ++ ['\'']) ++ behind := by
      rw [hsplit, List.append_assoc, List.singleton_append]
    apply (List.append_inj hsplit _).1
    rw [← hmore, hlength, List.length_append, List.length_singleton]
  refine ⟨body, hbody, ?_⟩
  rw [htoken, hpiece]
  rfl

/-- Each of the bodies is read as one character. -/
theorem ofText_single {body : List Char} (hbody : CharacterBody body) :
    ofText (single body) = [covering .char 0 (single body), eof (single body).utf8ByteSize] := by
  have hmore : (ofKind .char (body.length + 1)).more = (body ++ ['\'']).length := by
    rw [List.length_append]
    rfl
  rw [ofText, single, String.toList_ofList, scan, first_singleQuote, character_of_body hbody [],
    hmore, List.take_length, List.drop_length, scan]
  refine congrArg₂ List.cons rfl (congrArg (fun stop => [eof stop]) ?_)
  exact Nat.zero_add _

end Token

theorem Node.literal?_of_single {node : Node} {chars : List Char}
    (htext : node.firstText? = some (Token.single chars)) :
    node.literal? = (unescape? chars).map String.ofList := by
  have hdouble : between? ['"'] ['"'] (Token.single chars).toList = none := by
    rw [Token.single, String.toList_ofList]
    rfl
  have hsingle : between? ['\''] ['\''] (Token.single chars).toList = some chars := by
    rw [Token.single, String.toList_ofList, between?_around]
  rw [literal?, htext, Option.bind_some, hdouble, Option.none_or, hsingle]
  rfl

namespace Text

theorem Escape.length_le {body tail denoted : List Char} (hescape : Escape body tail denoted) :
    denoted.length ≤ 1 := by
  cases hescape <;> simp

/-- A body with a value of other than one character goes on behind an escape, or denotes nothing. -/
theorem value_of_characterBody {body value : List Char} (hbody : Lexeme.CharacterBody body)
    (hvalue : unescape? body = some value) :
    value.length = 1 ∨ ∃ escape tail denoted more, body = '\\' :: (escape ++ tail) ∧
      Escape escape tail denoted ∧ unescape? tail = some more ∧ value = denoted ++ more ∧
      (denoted = [] ∨ tail ≠ []) := by
  cases decodes_of_unescape? hvalue with
  | nil => cases hbody
  | plain hplain hrest =>
      cases hbody with
      | plain =>
          cases hrest
          exact .inl rfl
      | escaped => exact absurd rfl hplain
  | @escape escape tail denoted more hescape htail =>
      by_cases hlone : denoted ≠ [] ∧ tail = []
      · obtain ⟨hsome, rfl⟩ := hlone
        cases htail
        have hpos := List.length_pos_iff.mpr hsome
        have hle := hescape.length_le
        left
        rw [List.append_nil]
        omega
      · refine .inr ⟨escape, tail, denoted, more, rfl, hescape, htail.unescape?_eq, rfl, ?_⟩
        rwa [not_and_or, not_not] at hlone

end Text

/-- A character token has a plain character between its quotes, or a backslash with what follows up
to the closing quote, and every such text is read as one character. Its value is what the decoder
makes of the body, so it is a single character if there is one, unless something stands behind the
first escape or this escape denotes nothing. -/
theorem character_denotes {text : String} {token : Token} (htoken : token ∈ Token.ofText text)
    (hkind : token.kind = .char) :
    ∃ body, Lexeme.CharacterBody body ∧ token.text = Token.single body ∧
      Token.ofText token.text =
        [.covering .char 0 token.text, .eof token.text.utf8ByteSize] ∧
      (∀ node : Node, node.firstText? = some token.text →
        node.literal? = (unescape? body).map String.ofList) ∧
      ∀ value, unescape? body = some value →
        value.length = 1 ∨ ∃ escape tail denoted more, body = '\\' :: (escape ++ tail) ∧
          Escape escape tail denoted ∧ unescape? tail = some more ∧ value = denoted ++ more ∧
          (denoted = [] ∨ tail ≠ []) := by
  obtain ⟨body, hbody, heq⟩ := Token.exists_single htoken hkind
  refine ⟨body, hbody, heq, ?_, ?_, ?_⟩
  · rw [heq]
    exact Token.ofText_single hbody
  · intro node htext
    apply Node.literal?_of_single
    rw [htext, heq]
  · intro value hvalue
    exact value_of_characterBody hbody hvalue

/-- A number, in the text behind a plain character. -/
theorem character_denotes_of_number :
    Token.covering .char 4 "'\\o101'" ∈ Token.ofText "'é''\\o101'" ∧
      ∃ body, Lexeme.CharacterBody body ∧ "'\\o101'" = Token.single body ∧
        Token.ofText "'\\o101'" = [.covering .char 0 "'\\o101'", .eof 7] ∧
        (∀ node : Node, node.firstText? = some "'\\o101'" →
          node.literal? = (unescape? body).map String.ofList) ∧
        ∀ value, unescape? body = some value →
          value.length = 1 ∨ ∃ escape tail denoted more, body = '\\' :: (escape ++ tail) ∧
            Escape escape tail denoted ∧ unescape? tail = some more ∧ value = denoted ++ more ∧
            (denoted = [] ∨ tail ≠ []) := by
  have htoken : Token.covering .char 4 "'\\o101'" ∈ Token.ofText "'é''\\o101'" := by
    decide +kernel
  exact ⟨htoken, character_denotes htoken rfl⟩

/-- Character tokens with a value of four characters, and with a value of none. -/
theorem exists_character_misread :
    (∃ token ∈ Token.ofText "'\\nabc'", token.kind = .char ∧
      (Node.ofToken token).literal? = some "\nabc") ∧
    ∃ token ∈ Token.ofText "'\\&'", token.kind = .char ∧
      (Node.ofToken token).literal? = some "" := by
  constructor
  · refine ⟨.covering .char 0 "'\\nabc'", by decide +kernel, rfl, ?_⟩
    decide +kernel
  · refine ⟨.covering .char 0 "'\\&'", by decide +kernel, rfl, ?_⟩
    decide +kernel

end LosslessTree
