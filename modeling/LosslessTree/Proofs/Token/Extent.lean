import LosslessTree.Proofs.Token.Slice

/-!
How far lexemes reach. None goes on behind the end of the text, whatever it tried before it fell back,
and one that is flawed says so by its kind. Reading one token after the other therefore comes to the
end of the text, and the tokens read on the way tile it.
-/

namespace LosslessTree

open Text

namespace Lexeme

/-! ## Lexemes stay inside the text -/

theorem fractionLength_le (rest : List Char) : fractionLength rest ≤ rest.length := by
  unfold fractionLength
  split
  · next rest =>
      have hrun := runLength_le isDecimalDigit rest
      split
      · exact Nat.zero_le _
      · next hdigits =>
          rw [hdigits] at hrun
          exact Nat.succ_le_succ hrun
  · exact Nat.zero_le _

theorem signLength_le (rest : List Char) : signLength rest ≤ rest.length := by
  unfold signLength
  split
  · exact Nat.le_refl _
  · rw [List.length_cons]
    split <;> omega

theorem exponentLength_le (rest : List Char) : exponentLength rest ≤ rest.length := by
  cases rest with
  | nil => exact Nat.le_refl _
  | cons mark rest =>
      by_cases hmark : mark = 'e' ∨ mark = 'E'
      · have hsign := signLength_le rest
        have hrun := runLength_le isDecimalDigit (rest.drop (signLength rest))
        rw [List.length_drop] at hrun
        rw [exponentLength_mark hmark, List.length_cons]
        split <;> omega
      · simp only [exponentLength, if_neg hmark, Nat.zero_le]

theorem decimal_le (rest : List Char) : (decimal rest).more ≤ rest.length := by
  unfold decimal
  generalize hwhole : runLength (fun c => isDecimalDigit c || c == '_') rest = whole
  have hrun : whole ≤ rest.length := hwhole ▸ runLength_le _ rest
  have hfraction := fractionLength_le (rest.drop whole)
  have hexponent := exponentLength_le (rest.drop (whole + fractionLength (rest.drop whole)))
  rw [List.length_drop] at hfraction hexponent
  change whole + _ + _ ≤ _
  omega

theorem based_le (base : Nat) (rest : List Char) : (based base rest).more ≤ rest.length + 1 := by
  have hrun := runLength_le (fun c => isDigitIn base c || c == '_') rest
  unfold based
  split
  · exact Nat.succ_le_succ (Nat.zero_le _)
  · next hdigits =>
      rw [hdigits] at hrun
      change 1 + _ ≤ _
      omega

theorem number_le (c : Char) (rest : List Char) : (number c rest).more ≤ rest.length := by
  unfold number
  split
  · split
    · exact based_le _ _
    · exact decimal_le _
  · exact decimal_le _

theorem qualification_le (kind : TokenKind) (rest : List Char) :
    (qualification kind rest).2 ≤ rest.length := by
  induction kind, rest using qualification.induct with
  | case1 kind first rest name hupper _ _ _ ih =>
      have hname : name ≤ (first :: rest).length := runLength_le _ _
      rw [List.length_drop] at ih
      rw [qualification_constructor hupper]
      change 1 + name + (qualification .qualifiedConId ((first :: rest).drop name)).2 ≤ _
      rw [List.length_cons]
      omega
  | case2 kind first rest name hupper hstart hreserved =>
      rw [qualification_variable (Bool.eq_false_iff.mpr hupper) hstart, if_pos hreserved]
      exact Nat.zero_le _
  | case3 kind first rest name hupper hstart hreserved =>
      have hname : name ≤ (first :: rest).length := runLength_le _ _
      rw [qualification_variable (Bool.eq_false_iff.mpr hupper) hstart, if_neg hreserved]
      change 1 + name ≤ _
      rw [List.length_cons]
      omega
  | case4 kind first rest hupper hstart hsymbol =>
      have hrun := runLength_le isSymbol (first :: rest)
      rw [qualification_operator (Bool.eq_false_iff.mpr hupper) (Bool.eq_false_iff.mpr hstart),
        if_pos hsymbol, List.length_cons]
      omega
  | case5 kind first rest hupper hstart hsymbol =>
      rw [qualification_operator (Bool.eq_false_iff.mpr hupper) (Bool.eq_false_iff.mpr hstart),
        if_neg hsymbol]
      exact Nat.zero_le _
  | case6 kind rest hdot =>
      rw [qualification]
      · exact Nat.zero_le _
      · exact hdot

theorem constructorName_le (rest : List Char) : (constructorName rest).more ≤ rest.length := by
  have hname := runLength_le isNameChar rest
  have hmore := qualification_le .conId (rest.drop (runLength isNameChar rest))
  rw [List.length_drop] at hmore
  change runLength isNameChar rest + _ ≤ _
  omega

theorem stringEnd_le (spot : StringSpot) (rest : List Char) :
    (stringEnd spot rest).2 ≤ rest.length := by
  induction rest generalizing spot with
  | nil => cases spot <;> exact Nat.le_refl _
  | cons c rest ih =>
      have hfurther (spot : StringSpot) : (stringEnd spot rest).2 + 1 ≤ (c :: rest).length :=
        Nat.succ_le_succ (ih spot)
      have hone : 1 ≤ (c :: rest).length := Nat.succ_le_succ (Nat.zero_le _)
      cases spot with
      | plain =>
          simp only [stringEnd]
          split_ifs
          exacts [hfurther _, hfurther _, hone, hone, hfurther _]
      | escaped =>
          simp only [stringEnd]
          split_ifs
          exacts [hone, hfurther _]
      | gap =>
          simp only [stringEnd]
          split_ifs
          exacts [hfurther _, hfurther _, Nat.zero_le _]

theorem string_le (rest : List Char) : (string rest).more ≤ rest.length := by
  have hend := stringEnd_le .plain rest
  unfold string
  split <;> next heq => rwa [heq] at hend

theorem closed_le {rest : List Char} {length : Nat} (hlength : length ≤ rest.length) :
    (closed rest length).more ≤ rest.length := by
  unfold closed
  split
  · next hquote =>
      have hbehind : (rest.drop length).length ≠ 0 := by
        intro hnone
        rw [List.eq_nil_of_length_eq_zero hnone] at hquote
        cases hquote
      rw [List.length_drop] at hbehind
      change length + 1 ≤ _
      omega
  · exact hlength

theorem character_le (rest : List Char) : (character rest).more ≤ rest.length := by
  unfold character
  split
  · exact Nat.le_refl _
  · exact Nat.le_refl _
  · next escape tail =>
      have hrun := runLength_le (fun c => c != '\'' && !isLineEnd c) tail
      apply closed_le
      simp only [List.length_cons]
      omega
  · have hone (c : Char) (tail : List Char) : 1 ≤ (c :: tail).length :=
      Nat.succ_le_succ (Nat.zero_le _)
    split
    · exact hone _ _
    · exact closed_le (hone _ _)

theorem commentLength?_le {depth length : Nat} {rest : List Char}
    (hlength : commentLength? depth rest = some length) : length ≤ rest.length := by
  fun_induction commentLength? depth rest generalizing length with
  | case1 => cases hlength
  | case3 =>
      obtain rfl := Option.some.inj hlength
      simp
  | case2 _ _ ih | case4 _ _ ih | case5 _ _ _ _ _ ih =>
      obtain ⟨inner, hinner, rfl⟩ := Option.map_eq_some_iff.mp hlength
      have hle := ih hinner
      simp only [List.length_cons]
      omega

theorem pragmaLength?_le {length : Nat} {rest : List Char}
    (hlength : pragmaLength? rest = some length) : length ≤ rest.length := by
  fun_induction pragmaLength? rest generalizing length with
  | case1 => cases hlength
  | case2 tail =>
      obtain rfl := Option.some.inj hlength
      simp
  | case3 _ _ _ ih =>
      obtain ⟨inner, hinner, rfl⟩ := Option.map_eq_some_iff.mp hlength
      exact Nat.succ_le_succ (ih hinner)

theorem commentary?_le {c : Char} {rest : List Char} {lexeme : Lexeme}
    (hlexeme : commentary? c rest = some lexeme) : lexeme.more ≤ rest.length := by
  unfold commentary? at hlexeme
  split at hlexeme
  · split at hlexeme
    · obtain rfl := Option.some.inj hlexeme
      exact runLength_le _ _
    · cases hlexeme
  · next rest =>
      obtain rfl := Option.some.inj hlexeme
      unfold pragma
      simp only [List.length_cons]
      split
      · next length hlength =>
          have hle := pragmaLength?_le hlength
          change 2 + length ≤ _
          omega
      · change 2 + rest.length ≤ _
        omega
  · next rest _ =>
      obtain rfl := Option.some.inj hlexeme
      unfold blockComment
      simp only [List.length_cons]
      split
      · next length hlength =>
          have hle := commentLength?_le hlength
          change 1 + length ≤ _
          omega
      · change 1 + rest.length ≤ _
        omega
  · cases hlexeme

theorem more_first_le (c : Char) (rest : List Char) : (first c rest).more ≤ rest.length := by
  unfold first
  repeat' split
  · exact runLength_le _ _
  · next hlexeme => exact commentary?_le hlexeme
  · exact number_le _ _
  · exact constructorName_le _
  · exact runLength_le _ _
  · exact string_le _
  · exact character_le _
  · exact Nat.zero_le _
  · exact runLength_le _ _
  · exact Nat.zero_le _

/-! ## Flaws -/

/-- A lexeme with a flaw has the kind of flawed tokens, and no other has it. -/
def Frank (lexeme : Lexeme) : Prop := lexeme.flaw?.isSome = true ↔ lexeme.kind = .flawed

theorem frank_ofFlaw (flaw : Flaw) (more : Nat) : (ofFlaw flaw more).Frank :=
  ⟨fun _ => rfl, fun _ => rfl⟩

theorem frank_ofKind {kind : TokenKind} (hkind : kind ≠ .flawed) (more : Nat) :
    (ofKind kind more).Frank :=
  ⟨fun hflaw => (Bool.false_ne_true hflaw).elim, fun heq => absurd heq hkind⟩

theorem ofWord_ne_flawed (word : List Char) : TokenKind.ofWord word ≠ .flawed := by
  have hall : ∀ entry ∈ TokenKind.reservedWords, entry.2 ≠ .flawed := by decide
  unfold TokenKind.ofWord
  cases hlookup : TokenKind.reservedWords.lookup (String.ofList word) with
  | none => exact TokenKind.noConfusion
  | some kind =>
      obtain ⟨before, after, heq, -⟩ := List.lookup_eq_some_iff.mp hlookup
      exact hall (_, kind) (heq ▸ List.mem_append_right _ List.mem_cons_self)

theorem ofOperator_ne_flawed (operator : List Char) : TokenKind.ofOperator operator ≠ .flawed := by
  have hall : ∀ entry ∈ TokenKind.reservedOperators, entry.2 ≠ .flawed := by decide
  unfold TokenKind.ofOperator
  split
  · next kind hlookup =>
      obtain ⟨before, after, heq, -⟩ := List.lookup_eq_some_iff.mp hlookup
      exact hall (_, kind) (heq ▸ List.mem_append_right _ List.mem_cons_self)
  · split <;> exact TokenKind.noConfusion

theorem punctuation?_ne_flawed {c : Char} {kind : TokenKind} (hkind : punctuation? c = some kind) :
    kind ≠ .flawed := by
  unfold punctuation? at hkind
  split at hkind <;> grind

theorem qualification_ne_flawed {kind : TokenKind} (rest : List Char) (hkind : kind ≠ .flawed) :
    (qualification kind rest).1 ≠ .flawed := by
  fun_induction qualification kind rest <;> grind

theorem frank_number (c : Char) (rest : List Char) : (number c rest).Frank := by
  have hdecimal : (decimal rest).Frank := by
    refine frank_ofKind ?_ _
    split <;> exact TokenKind.noConfusion
  have hbased (base : Nat) (digits : List Char) : (based base digits).Frank := by
    unfold based
    split
    · exact frank_ofFlaw _ _
    · exact frank_ofKind TokenKind.noConfusion _
  unfold number
  split
  · split
    · exact hbased _ _
    · exact hdecimal
  · exact hdecimal

theorem frank_string (rest : List Char) : (string rest).Frank := by
  unfold string
  split
  · exact frank_ofKind TokenKind.noConfusion _
  · exact frank_ofFlaw _ _

theorem frank_character (rest : List Char) : (character rest).Frank := by
  have hclosed (rest : List Char) (length : Nat) : (closed rest length).Frank := by
    unfold closed
    split
    · exact frank_ofKind TokenKind.noConfusion _
    · exact frank_ofFlaw _ _
  unfold character
  repeat' split
  · exact frank_ofFlaw _ _
  · exact frank_ofFlaw _ _
  · exact hclosed _ _
  · exact frank_ofFlaw _ _
  · exact hclosed _ _

theorem frank_commentary? {c : Char} {rest : List Char} {lexeme : Lexeme}
    (hlexeme : commentary? c rest = some lexeme) : lexeme.Frank := by
  unfold commentary? at hlexeme
  split at hlexeme
  · split at hlexeme
    · obtain rfl := Option.some.inj hlexeme
      exact frank_ofKind TokenKind.noConfusion _
    · cases hlexeme
  · obtain rfl := Option.some.inj hlexeme
    unfold pragma
    split
    · exact frank_ofKind TokenKind.noConfusion _
    · exact frank_ofFlaw _ _
  · obtain rfl := Option.some.inj hlexeme
    unfold blockComment
    split
    · exact frank_ofKind TokenKind.noConfusion _
    · exact frank_ofFlaw _ _
  · cases hlexeme

theorem frank_first (c : Char) (rest : List Char) : (first c rest).Frank := by
  unfold first
  repeat' split
  · exact frank_ofKind TokenKind.noConfusion _
  · next hlexeme => exact frank_commentary? hlexeme
  · exact frank_number _ _
  · exact frank_ofKind (qualification_ne_flawed _ TokenKind.noConfusion) _
  · exact frank_ofKind (ofWord_ne_flawed _) _
  · exact frank_string _
  · exact frank_character _
  · next hkind => exact frank_ofKind (punctuation?_ne_flawed hkind) _
  · exact frank_ofKind (ofOperator_ne_flawed _) _
  · exact frank_ofFlaw _ _

end Lexeme

/-! ## Reading to the end -/

namespace Reading

open Token

variable {reading : Reading} {text : String}

theorem offset_le_next (reading : Reading) : reading.offset ≤ reading.next.2.offset := by
  unfold next
  split
  · exact Nat.le_refl _
  · exact Nat.le_add_right _ _

/-- What one reading gives: the kind, the source between the two places, and the flaw if there is
one, which is taken. -/
def token (reading : Reading) : Token where
  kind := reading.next.1
  span := ⟨reading.offset, reading.next.2.offset, reading.offset_le_next⟩
  text := reading.slice reading.offset reading.next.2.offset
  flaw := reading.next.2.takeFlaw.1.map Flaw.message

/-- Reads on until the end of the text has been read, unless the rounds do not suffice. -/
def drain : (rounds : Nat) → Reading → Option (List Token)
  | 0, _ => none
  | rounds + 1, reading =>
    if reading.next.1 = .eof then some [reading.token]
    else (drain rounds reading.next.2.takeFlaw.2).map (reading.token :: ·)

/-- A reading that stands in a text behind a part of it, with no flaw left to take. -/
structure Behind (text : String) (front : List Char) (reading : Reading) : Prop where
  source : reading.source = text.toList
  split : text.toList = front ++ reading.rest
  offset : reading.offset = (String.ofList front).utf8ByteSize
  flaw : reading.flaw = none

theorem behind_start (text : String) : Behind text [] (start text) where
  source := rfl
  split := rfl
  offset := rfl
  flaw := rfl

namespace Behind

variable {front : List Char}

theorem slice_eq {piece back : List Char} (hbehind : Behind text front reading)
    (hrest : reading.rest = piece ++ back) :
    reading.slice reading.offset (reading.offset + (String.ofList piece).utf8ByteSize) =
      String.ofList piece := by
  rw [slice, hbehind.source, hbehind.split, hrest, hbehind.offset, charsBetween_append,
    charsBetween_append, charsBetween_outside (.inl (by omega)),
    charsBetween_inside (by omega) (by omega), charsBetween_outside (.inr (by omega)),
    List.nil_append, List.append_nil]

theorem token_at_end (hbehind : Behind text front reading) (hrest : reading.rest = []) :
    reading.next.1 = .eof ∧ reading.token = eof reading.offset := by
  obtain ⟨source, rest, offset, flaw⟩ := reading
  obtain rfl : rest = [] := hrest
  obtain rfl : flaw = none := hbehind.flaw
  have hnothing : (⟨source, [], offset, none⟩ : Reading).rest = [] ++ [] := rfl
  have htext : slice ⟨source, [], offset, none⟩ offset offset = "" := hbehind.slice_eq hnothing
  refine ⟨rfl, ?_⟩
  change Token.mk .eof ⟨offset, offset, _⟩ (slice ⟨source, [], offset, none⟩ offset offset) none = _
  rw [htext]
  rfl

theorem token_of_cons (hbehind : Behind text front reading) {c : Char} {rest : List Char}
    (hrest : reading.rest = c :: rest) :
    ∃ after, reading.next.2.takeFlaw.2 = after ∧ reading.next.1 ≠ .eof ∧
      reading.token = ofLexeme (Lexeme.first c rest) reading.offset
        (c :: rest.take (Lexeme.first c rest).more) ∧
      after.rest = rest.drop (Lexeme.first c rest).more ∧
      after.offset = reading.token.span.stop ∧
      Behind text (front ++ c :: rest.take (Lexeme.first c rest).more) after := by
  obtain ⟨source, rest', offset, flaw⟩ := reading
  obtain rfl : rest' = c :: rest := hrest
  obtain rfl : flaw = none := hbehind.flaw
  generalize hlexeme : Lexeme.first c rest = lexeme
  have hchars : c :: rest = (c :: rest.take lexeme.more) ++ rest.drop lexeme.more := by simp
  have hnext : next ⟨source, c :: rest, offset, none⟩ =
      (lexeme.kind, ⟨source, rest.drop lexeme.more,
        offset + (String.ofList (c :: rest.take lexeme.more)).utf8ByteSize,
        lexeme.flaw?.or none⟩) := by
    rw [← hlexeme]
    rfl
  have htoken : token ⟨source, c :: rest, offset, none⟩ =
      ofLexeme lexeme offset (c :: rest.take lexeme.more) := by
    have htext := hbehind.slice_eq hchars
    simp only [token, hnext, takeFlaw, Option.or_none]
    rw [htext]
    rfl
  refine ⟨_, rfl, ?_, htoken, ?_, ?_, ?_⟩
  · rw [hnext, ← hlexeme]
    exact Lexeme.kind_ne_eof c rest
  · rw [hnext]
    rfl
  · rw [hnext, htoken]
    rfl
  · rw [hnext]
    refine ⟨hbehind.source, ?_, ?_, rfl⟩
    · rw [hbehind.split, List.append_assoc]
      exact congrArg _ hchars
    · have hoffset : offset = (String.ofList front).utf8ByteSize := hbehind.offset
      rw [String.ofList_append, String.utf8ByteSize_append, ← hoffset]
      rfl

theorem drain_eq (hbehind : Behind text front reading) {rounds : Nat}
    (hrounds : reading.rest.length < rounds) :
    reading.drain rounds = some (scan reading.offset reading.rest) := by
  induction rounds generalizing reading front with
  | zero => exact absurd hrounds (Nat.not_lt_zero _)
  | succ rounds ih =>
      rw [drain]
      cases hrest : reading.rest with
      | nil =>
          obtain ⟨hkind, htoken⟩ := hbehind.token_at_end hrest
          rw [if_pos hkind, htoken, scan]
      | cons c rest =>
          obtain ⟨after, hafter, hkind, htoken, hleft, hoffset, hnext⟩ :=
            hbehind.token_of_cons hrest
          have hless : after.rest.length < rounds := by
            rw [hleft, List.length_drop]
            rw [hrest, List.length_cons] at hrounds
            omega
          rw [if_neg hkind, hafter, ih hnext hless, hleft, hoffset, htoken, Option.map_some, scan]

end Behind

end Reading

namespace Token

/-- Every token but the last one of a text is a lexeme, and has all the characters that it takes. -/
theorem exists_lexeme {offset : Nat} {text : List Char} {token : Token}
    (htoken : token ∈ scan offset text) (hkind : token.kind ≠ .eof) :
    ∃ c piece back, token = ofLexeme (Lexeme.first c (piece ++ back)) token.span.start (c :: piece) ∧
      (Lexeme.first c (piece ++ back)).more = piece.length := by
  induction offset, text using scan.induct with
  | case1 offset =>
      rw [scan, List.mem_singleton] at htoken
      exact absurd (congrArg Token.kind htoken) hkind
  | case2 offset c rest lexeme first ih =>
      rw [scan] at htoken
      rcases List.mem_cons.mp htoken with rfl | hrest
      · refine ⟨c, rest.take lexeme.more, rest.drop lexeme.more, ?_, ?_⟩
        · rw [List.take_append_drop]
          rfl
        · rw [List.take_append_drop, List.length_take,
            Nat.min_eq_left (Lexeme.more_first_le c rest)]
      · exact ih hrest

theorem frank_of_scan {offset : Nat} {text : List Char} {token : Token}
    (htoken : token ∈ scan offset text) : token.flaw.isSome = true ↔ token.kind = .flawed := by
  induction offset, text using scan.induct with
  | case1 offset =>
      rw [scan, List.mem_singleton] at htoken
      rw [htoken]
      exact ⟨fun hflaw => (Bool.false_ne_true hflaw).elim, TokenKind.noConfusion⟩
  | case2 offset c rest lexeme first ih =>
      rw [scan] at htoken
      rcases List.mem_cons.mp htoken with rfl | hrest
      · change (lexeme.flaw?.map Flaw.message).isSome = true ↔ lexeme.kind = .flawed
        rw [Option.isSome_map]
        exact Lexeme.frank_first c rest
      · exact ih hrest

theorem chars_scan (offset : Nat) (text : List Char) : chars (scan offset text) = text := by
  induction offset, text using scan.induct with
  | case1 offset =>
      rw [scan]
      rfl
  | case2 offset c rest lexeme token ih =>
      rw [scan, chars_cons, text_ofLexeme, ih, List.cons_append, List.take_append_drop]

theorem toList_join (tokens : List Token) :
    (String.join (tokens.map (·.text))).toList = chars tokens := by
  induction tokens with
  | nil => rfl
  | cons token rest ih =>
      rw [List.map_cons, String.join_cons, String.toList_append, ih, chars_cons]

/-- Reading token by token comes to the end of every text, and gives tokens that tile it: one behind
the other they cover it, each is a lexeme of at least one character with the text of its range, the
end comes last, and those of the kind for flawed ones say what is wrong. -/
theorem ofText_tiles (text : String) :
    (∀ extra, (Reading.start text).drain (text.length + 1 + extra) = some (ofText text)) ∧
    (∀ token ∈ ofText text, token.flaw.isSome = true ↔ token.kind = .flawed) ∧
    ∃ front, ofText text = front ++ [eof text.utf8ByteSize] ∧
      Tile text 0 front text.utf8ByteSize ∧ String.join (front.map (·.text)) = text ∧
      ∀ token ∈ front, token.kind ≠ .eof ∧ token.span.start < token.span.stop ∧
        ∃ c piece back,
          token = ofLexeme (Lexeme.first c (piece ++ back)) token.span.start (c :: piece) ∧
          (Lexeme.first c (piece ++ back)).more = piece.length := by
  refine ⟨fun extra => ?_, fun token htoken => frank_of_scan htoken, ?_⟩
  · refine (Reading.behind_start text).drain_eq ?_
    change text.toList.length < _
    rw [String.length_toList]
    omega
  · obtain ⟨front, stop, hends, hfront⟩ := scan_ends 0 text.toList
    have htile : Tile text 0 (scan 0 text.toList) text.utf8ByteSize :=
      scan_tile (show text = "" ++ String.ofList text.toList by simp)
    rw [hends] at htile
    obtain ⟨middle, htile, ⟨hstart, hstop⟩, -⟩ := htile.split
    obtain rfl : stop = middle := hstart
    obtain rfl : stop = text.utf8ByteSize := hstop
    refine ⟨front, hends, htile, ?_, fun token htoken => ?_⟩
    · have hchars := chars_scan 0 text.toList
      rw [hends, chars, List.flatMap_append] at hchars
      apply String.toList_injective
      rw [toList_join, ← hchars]
      exact (List.append_nil _).symm
    · have hmem : token ∈ scan 0 text.toList := hends ▸ List.mem_append_left _ htoken
      exact ⟨hfront token htoken, start_lt_stop hmem (hfront token htoken),
        exists_lexeme hmem (hfront token htoken)⟩

/-- A string that the end of the text leaves open is one token, which tells so. -/
theorem ofText_tiles_of_openString :
    (Reading.start "é\"∀ ").drain 5 = some (ofText "é\"∀ ") ∧
      ∃ token ∈ ofText "é\"∀ ", token.text = "\"∀ " ∧ token.flaw.isSome = true := by
  have htoken : ⟨.flawed, ⟨2, 7, by decide⟩, "\"∀ ", some "End of file in string literal"⟩ ∈
      ofText "é\"∀ " := by decide +kernel
  exact ⟨(ofText_tiles "é\"∀ ").1 0, _, htoken, rfl, ((ofText_tiles "é\"∀ ").2.1 _ htoken).mpr rfl⟩

end Token

end LosslessTree
