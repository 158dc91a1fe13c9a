import LosslessTree.Proofs.Text.Letters
import LosslessTree.Proofs.Token.Insertion

/-!
Texts cut off behind a lexeme. What a lexeme takes is the same in front of the end of the text: either
what stood behind it did not matter, or it spoke against going on, as the end does. The exception is
a dot behind a constructor name, of which a reserved word must not be cut in two.
-/

namespace LosslessTree

namespace Text

theorem runLength_front_le (test : Char → Bool) (front left : List Char) :
    runLength test front ≤ runLength test (front ++ left) := by
  induction front with
  | nil => exact Nat.zero_le _
  | cons c front ih =>
      cases htest : test c with
      | true => simpa [runLength, htest] using ih
      | false => simp [runLength, htest]

theorem runLength_cut {test : Char → Bool} {front : List Char} (left : List Char)
    (hfront : runLength test (front ++ left) ≤ front.length) :
    runLength test front = runLength test (front ++ left) := by
  induction front with
  | nil => exact (Nat.le_zero.mp hfront).symm
  | cons c front ih =>
      cases htest : test c with
      | true =>
          have hrest : runLength test (front ++ left) ≤ front.length := by
            simpa [runLength, htest] using hfront
          simpa [runLength, htest] using ih hrest
      | false => simp [runLength, htest]

theorem length_lt_runLength {test : Char → Bool} {front : List Char} {c : Char}
    (hfront : ∀ c ∈ front, test c = true) (hc : test c = true) (left : List Char) :
    front.length < runLength test (front ++ c :: left) := by
  rw [runLength, List.takeWhile_append_of_pos hfront, List.takeWhile_cons_of_pos hc,
    List.length_append, List.length_cons]
  omega

theorem runLength_pos {test : Char → Bool} {c : Char} (hc : test c = true) (rest : List Char) :
    0 < runLength test (c :: rest) := by
  simp [runLength, hc]

end Text

namespace Lexeme

open Text

variable {front left : List Char}

/-! ## Numbers -/

theorem fractionLength_dot (rest : List Char) :
    fractionLength ('.' :: rest) =
      if runLength isDecimalDigit rest = 0 then 0 else runLength isDecimalDigit rest + 1 := by
  rw [fractionLength]
  split <;> rename_i hdigits <;> simp [hdigits]

theorem fractionLength_cut (hfront : fractionLength (front ++ left) ≤ front.length) :
    fractionLength front = fractionLength (front ++ left) := by
  cases front with
  | nil => exact (Nat.le_zero.mp hfront).symm
  | cons c front =>
      by_cases hdot : c = '.'
      · subst hdot
        have hless := runLength_front_le isDecimalDigit front left
        rw [List.cons_append, fractionLength_dot, List.length_cons] at hfront
        rw [List.cons_append, fractionLength_dot, fractionLength_dot]
        split at hfront
        · next hnone => rw [if_pos (by omega), if_pos hnone]
        · have hdigits : runLength isDecimalDigit front =
              runLength isDecimalDigit (front ++ left) := runLength_cut left (by omega)
          rw [hdigits]
      · simp [fractionLength, hdot]

theorem exponentLength_cut (hfront : exponentLength (front ++ left) ≤ front.length) :
    exponentLength front = exponentLength (front ++ left) := by
  cases front with
  | nil => exact (Nat.le_zero.mp hfront).symm
  | cons mark front =>
      by_cases hmark : mark = 'e' ∨ mark = 'E'
      · rw [List.cons_append, exponentLength_mark hmark, List.length_cons] at hfront
        rw [List.cons_append, exponentLength_mark hmark, exponentLength_mark hmark]
        cases front with
        | nil =>
            -- A mark in front of the cut has no digits behind it, or they would be within.
            split at hfront
            · next hnone =>
                rw [List.nil_append] at hnone ⊢
                rw [if_pos hnone, if_pos (by rfl)]
            · rw [List.length_nil] at hfront
              omega
        | cons c front =>
            have hsign : signLength (c :: front ++ left) = signLength (c :: front) := rfl
            have hshort : signLength (c :: front) ≤ (c :: front).length := by
              rw [signLength]
              split <;> simp
            rw [hsign, List.drop_append_of_le_length hshort] at hfront ⊢
            generalize hback : (c :: front).drop (signLength (c :: front)) = back at hfront ⊢
            have hlength : back.length + signLength (c :: front) = (c :: front).length := by
              rw [← hback, List.length_drop]
              omega
            have hless := runLength_front_le isDecimalDigit back left
            split at hfront
            · next hnone => rw [if_pos (by omega), if_pos hnone]
            · have hdigits : runLength isDecimalDigit back =
                  runLength isDecimalDigit (back ++ left) := runLength_cut left (by omega)
              rw [hdigits]
      · simp only [List.cons_append, exponentLength, if_neg hmark]

theorem decimal_cut (hfront : (decimal (front ++ left)).more ≤ front.length) :
    decimal front = decimal (front ++ left) := by
  simp only [decimal, ofKind, ← List.drop_drop] at hfront ⊢
  generalize hrun : runLength (fun c => isDecimalDigit c || c == '_') (front ++ left) = whole
    at hfront ⊢
  have hwhole : runLength (fun c => isDecimalDigit c || c == '_') front = whole := by
    rw [runLength_cut left (by rw [hrun]; omega), hrun]
  rw [hwhole]
  rw [List.drop_append_of_le_length (by omega)] at hfront ⊢
  generalize hpart : fractionLength (front.drop whole ++ left) = fraction at hfront ⊢
  have hfraction : fractionLength (front.drop whole) = fraction := by
    rw [fractionLength_cut (by rw [hpart, List.length_drop]; omega), hpart]
  rw [hfraction]
  rw [List.drop_append_of_le_length (by rw [List.length_drop]; omega)] at hfront ⊢
  have hexponent : exponentLength ((front.drop whole).drop fraction) =
      exponentLength ((front.drop whole).drop fraction ++ left) :=
    exponentLength_cut (by simp only [List.length_drop]; omega)
  rw [hexponent]

theorem based_cut {base : Nat} (hfront : (based base (front ++ left)).more ≤ front.length + 1) :
    based base front = based base (front ++ left) := by
  have hrun : runLength (fun c => isDigitIn base c || c == '_') (front ++ left) ≤ front.length := by
    unfold based at hfront
    split at hfront
    · next hnone => omega
    · next digits hsome =>
        change 1 + (digits + 1) ≤ front.length + 1 at hfront
        omega
  rw [based, based, runLength_cut left hrun]

theorem number_cut {first : Char} (hfront : (number first (front ++ left)).more ≤ front.length) :
    number first front = number first (front ++ left) := by
  by_cases hzero : first = '0'
  · subst hzero
    cases front with
    | nil =>
        cases left with
        | nil => rfl
        | cons letter digits =>
            rw [List.nil_append, number] at hfront ⊢
            split at hfront
            · unfold based at hfront
              split at hfront
              · cases hfront
              · exact absurd hfront (by simp [ofKind])
            · rw [number]
              · exact decimal_cut hfront
              · simp
    | cons letter digits =>
        simp only [List.cons_append, number] at hfront ⊢
        split at hfront
        · exact based_cut hfront
        · exact decimal_cut hfront
  · have hdecimal : ∀ rest, number first rest = decimal rest := fun rest => by
      simp [number, hzero]
    rw [hdecimal] at hfront
    rw [hdecimal, hdecimal, decimal_cut hfront]

/-! ## Names and operators -/

theorem variableName_cut {first : Char}
    (hfront : (variableName first (front ++ left)).more ≤ front.length) :
    variableName first front = variableName first (front ++ left) := by
  change runLength isNameChar (front ++ left) ≤ front.length at hfront
  rw [variableName, variableName, runLength_cut left hfront, List.take_append_of_le_length hfront]

theorem operator_cut {first : Char}
    (hfront : (operator first (front ++ left)).more ≤ front.length) :
    operator first front = operator first (front ++ left) := by
  change runLength isSymbol (front ++ left) ≤ front.length at hfront
  rw [operator, operator, runLength_cut left hfront, List.take_append_of_le_length hfront]

/-- The word behind a dot at the front of a text, if there is one, is not cut in two. -/
def KeepsWord (front left : List Char) : Prop :=
  ∀ first rest, front = '.' :: first :: rest → isUppercase first = false →
    isVariableStart first = true →
    runLength isNameChar (first :: rest ++ left) ≤ (first :: rest).length

section

variable {kind : TokenKind} {first : Char} {rest : List Char}

theorem qualification_constructor (hupper : isUppercase first = true) :
    qualification kind ('.' :: first :: rest) =
      ((qualification .qualifiedConId
          ((first :: rest).drop (runLength isNameChar (first :: rest)))).1,
        1 + runLength isNameChar (first :: rest) + (qualification .qualifiedConId
          ((first :: rest).drop (runLength isNameChar (first :: rest)))).2) := by
  rw [qualification, if_pos hupper]

theorem qualification_variable (hupper : isUppercase first = false)
    (hstart : isVariableStart first = true) :
    qualification kind ('.' :: first :: rest) =
      if TokenKind.isReservedWord
          ((first :: rest).take (runLength isNameChar (first :: rest))) = true then (kind, 0)
      else (.qualifiedVarId, 1 + runLength isNameChar (first :: rest)) := by
  rw [qualification, if_neg (by simp [hupper]), if_pos hstart]

theorem qualification_operator (hupper : isUppercase first = false)
    (hstart : isVariableStart first = false) :
    qualification kind ('.' :: first :: rest) =
      if isSymbol first = true then
        (if first = ':' then .conSym else .varSym, 1 + runLength isSymbol (first :: rest))
      else (kind, 0) := by
  rw [qualification, if_neg (by simp [hupper]), if_neg (by simp [hstart])]

theorem qualification_of_le_one {text : List Char}
    (htaken : (qualification kind text).2 ≤ 1) : qualification kind text = (kind, 0) := by
  by_cases hdot : ∃ first rest, text = '.' :: first :: rest
  · obtain ⟨first, rest, rfl⟩ := hdot
    by_cases hupper : isUppercase first = true
    · have hname := runLength_pos (isNameChar_of_isUppercase hupper) rest
      rw [qualification_constructor hupper] at htaken
      dsimp only at htaken
      omega
    · rw [Bool.not_eq_true] at hupper
      by_cases hstart : isVariableStart first = true
      · have hname := runLength_pos (isNameChar_of_isVariableStart hstart) rest
        rw [qualification_variable hupper hstart] at htaken ⊢
        split_ifs at htaken ⊢
        · rfl
        · dsimp only at htaken
          omega
      · rw [Bool.not_eq_true] at hstart
        rw [qualification_operator hupper hstart] at htaken ⊢
        by_cases hsymbol : isSymbol first = true
        · have hrun := runLength_pos hsymbol rest
          rw [if_pos hsymbol] at htaken
          dsimp only at htaken
          omega
        · rw [if_neg hsymbol]
  · rw [qualification]
    intro first rest heq
    exact hdot ⟨first, rest, heq⟩

theorem qualification_of_short {front : List Char} (hfront : front.length ≤ 1) :
    qualification kind front = (kind, 0) := by
  rw [qualification]
  rintro first rest rfl
  simp at hfront

theorem qualification_of_ne {c : Char} (hdot : c ≠ '.') :
    qualification kind (c :: rest) = (kind, 0) := by
  rw [qualification]
  intro first more heq
  exact hdot (List.cons.inj heq).1

end

theorem qualification_cut {kind : TokenKind} {front : List Char}
    (hfront : (qualification kind (front ++ left)).2 ≤ front.length)
    (hword : KeepsWord (front.drop (qualification kind (front ++ left)).2) left) :
    qualification kind front = qualification kind (front ++ left) := by
  obtain ⟨length, hlength⟩ : ∃ length, front.length ≤ length := ⟨_, Nat.le_refl _⟩
  induction length generalizing kind front with
  | zero => rw [qualification_of_short (by omega), qualification_of_le_one (by omega)]
  | succ length ih =>
      match front with
      | [] => rw [qualification_of_short (by simp), qualification_of_le_one (Nat.le_succ_of_le hfront)]
      | [c] => rw [qualification_of_short (by simp), qualification_of_le_one hfront]
      | c :: first :: rest =>
          by_cases hdot : c = '.'
          · subst hdot
            simp only [List.cons_append, List.length_cons] at hfront hword hlength ⊢
            by_cases hupper : isUppercase first = true
            · rw [qualification_constructor hupper] at hfront hword ⊢
              rw [qualification_constructor hupper]
              generalize hname : runLength isNameChar (first :: (rest ++ left)) = name
                at hfront hword ⊢
              dsimp only at hfront hword
              have hwhole : runLength isNameChar (first :: rest) = name := by
                rw [← hname]
                exact runLength_cut left (by rw [List.cons_append, hname, List.length_cons]; omega)
              have hdrop : (first :: rest ++ left).drop name = (first :: rest).drop name ++ left :=
                List.drop_append_of_le_length (by rw [List.length_cons]; omega)
              rw [List.cons_append] at hdrop
              have hlower : ((first :: rest).drop name).length + name = rest.length + 1 := by
                rw [List.length_drop, List.length_cons]
                omega
              rw [hdrop] at hfront hword ⊢
              rw [Nat.add_comm 1 name, Nat.add_right_comm, List.drop_succ_cons,
                ← List.drop_drop] at hword
              have hagain : qualification .qualifiedConId ((first :: rest).drop name) =
                  qualification .qualifiedConId ((first :: rest).drop name ++ left) :=
                ih (by omega) hword (by omega)
              rw [hwhole, hagain]
            · rw [Bool.not_eq_true] at hupper
              by_cases hstart : isVariableStart first = true
              · rw [qualification_variable hupper hstart] at hfront hword ⊢
                rw [qualification_variable hupper hstart]
                generalize hname : runLength isNameChar (first :: (rest ++ left)) = name
                  at hfront hword ⊢
                -- A reserved word is not cut in two, and another word is part of the name.
                have hshort : name ≤ (first :: rest).length := by
                  split_ifs at hfront hword
                  · rw [← hname]
                    exact hword first rest rfl hupper hstart
                  · rw [List.length_cons]
                    dsimp only at hfront
                    omega
                have hwhole : runLength isNameChar (first :: rest) = name := by
                  rw [← hname]
                  exact runLength_cut left (by rwa [List.cons_append, hname])
                have htake : (first :: (rest ++ left)).take name = (first :: rest).take name :=
                  List.take_append_of_le_length hshort
                rw [hwhole, htake]
              · rw [Bool.not_eq_true] at hstart
                rw [qualification_operator hupper hstart] at hfront
                rw [qualification_operator hupper hstart, qualification_operator hupper hstart]
                by_cases hsymbol : isSymbol first = true
                · rw [if_pos hsymbol] at hfront
                  have hrun : runLength isSymbol (first :: rest) =
                      runLength isSymbol (first :: rest ++ left) :=
                    runLength_cut left (by
                      rw [List.cons_append, List.length_cons]
                      dsimp only at hfront
                      omega)
                  rw [if_pos hsymbol, if_pos hsymbol, hrun, List.cons_append]
                · rw [if_neg hsymbol, if_neg hsymbol]
          · rw [List.cons_append, qualification_of_ne hdot, qualification_of_ne hdot]

theorem constructorName_cut {front : List Char}
    (hfront : (constructorName (front ++ left)).more ≤ front.length)
    (hword : KeepsWord (front.drop (constructorName (front ++ left)).more) left) :
    constructorName front = constructorName (front ++ left) := by
  simp only [constructorName, ofKind] at hfront hword ⊢
  generalize hname : runLength isNameChar (front ++ left) = name at hfront hword ⊢
  have hwhole : runLength isNameChar front = name := by
    rw [← hname]
    exact runLength_cut left (by omega)
  rw [← List.drop_drop, List.drop_append_of_le_length (by omega)] at hword
  rw [List.drop_append_of_le_length (by omega)] at hfront ⊢
  rw [hwhole, qualification_cut (by rw [List.length_drop]; omega) hword]

/-! ## Strings and characters -/

theorem stringEnd_backslash (c : Char) (rest : List Char) :
    stringEnd .plain ('\\' :: c :: rest) =
      ((stringEnd (if isBlank c = true then .gap else .escaped) (c :: rest)).1,
        (stringEnd (if isBlank c = true then .gap else .escaped) (c :: rest)).2 + 1) := by
  rw [stringEnd]
  rfl

theorem stringEnd_behind_backslash (c : Char) (rest : List Char) :
    0 < (stringEnd (if isBlank c = true then .gap else .escaped) (c :: rest)).2 := by
  by_cases hblank : isBlank c = true
  · simp only [if_pos hblank, stringEnd]
    exact Nat.succ_pos _
  · simp only [if_neg hblank, stringEnd]
    split
    · exact Nat.one_pos
    · exact Nat.succ_pos _

theorem stringEnd_cut {spot : StringSpot} (hfront : (stringEnd spot (front ++ left)).2 ≤ front.length) :
    stringEnd spot front = stringEnd spot (front ++ left) := by
  cases left with
  | nil => rw [List.append_nil]
  | cons next left =>
      induction front generalizing spot with
      | nil =>
          -- Only a gap that a further character breaks ends in front of it, as it does at the end.
          cases spot with
          | plain => simp only [List.nil_append, stringEnd] at hfront; split_ifs at hfront <;> simp at hfront
          | escaped => simp only [List.nil_append, stringEnd] at hfront; split_ifs at hfront <;> simp at hfront
          | gap =>
              simp only [List.nil_append, stringEnd] at hfront ⊢
              split_ifs at hfront ⊢ <;> first | rfl | simp at hfront
      | cons c front ih =>
          have hfurther : ∀ spot, (stringEnd spot (front ++ next :: left)).2 + 1 ≤
              (c :: front).length →
              stringEnd spot front = stringEnd spot (front ++ next :: left) :=
            fun spot hlength => ih (Nat.le_of_succ_le_succ hlength)
          simp only [List.cons_append] at hfront ⊢
          cases spot with
          | plain =>
              by_cases hescape : c = '\\'
              · subst hescape
                cases front with
                | nil =>
                    have hpos := stringEnd_behind_backslash next left
                    rw [List.nil_append, stringEnd_backslash, List.length_singleton] at hfront
                    dsimp only at hfront
                    omega
                | cons other front =>
                    rw [List.cons_append, stringEnd_backslash] at hfront
                    rw [List.cons_append, stringEnd_backslash, stringEnd_backslash,
                      ← List.cons_append, hfurther _ hfront]
              · simp only [stringEnd, if_neg hescape] at hfront ⊢
                split_ifs at hfront ⊢ <;> first | rfl | rw [hfurther _ hfront]
          | escaped =>
              simp only [stringEnd] at hfront ⊢
              split_ifs at hfront ⊢ <;> first | rfl | rw [hfurther _ hfront]
          | gap =>
              simp only [stringEnd] at hfront ⊢
              split_ifs at hfront ⊢ <;> first | rfl | rw [hfurther _ hfront]

theorem string_cut (hfront : (string (front ++ left)).more ≤ front.length) :
    string front = string (front ++ left) := by
  have hend : (stringEnd .plain (front ++ left)).2 ≤ front.length := by
    unfold string at hfront
    split at hfront <;> rename_i heq <;> rw [heq] <;> exact hfront
  rw [string, string, stringEnd_cut hend]

theorem closed_cut {length : Nat} (hfront : (closed (front ++ left) length).more ≤ front.length) :
    closed front length = closed (front ++ left) length := by
  have hlength := Nat.le_trans (le_closed _ _) hfront
  unfold closed at hfront ⊢
  rw [List.drop_append_of_le_length hlength] at hfront ⊢
  cases hdrop : front.drop length with
  | nil =>
      -- A quote at the cut would be part of the lexeme.
      have hend := List.drop_eq_nil_iff.mp hdrop
      rw [hdrop, List.nil_append] at hfront
      split at hfront
      · change length + 1 ≤ front.length at hfront
        omega
      · next hquote => rw [if_neg (by simp), List.nil_append, if_neg hquote]
  | cons c back => rfl

theorem character_pos (c : Char) (rest : List Char) : 0 < (character (c :: rest)).more := by
  by_cases hescape : c = '\\'
  · subst hescape
    cases rest with
    | nil => exact Nat.one_pos
    | cons next rest => exact Nat.lt_of_lt_of_le (by omega) (le_closed _ _)
  · rw [character_of_ne hescape]
    split
    · exact Nat.one_pos
    · exact Nat.lt_of_lt_of_le Nat.one_pos (le_closed _ _)

theorem character_cut (hfront : (character (front ++ left)).more ≤ front.length) :
    character front = character (front ++ left) := by
  cases left with
  | nil => rw [List.append_nil]
  | cons next left =>
      cases front with
      | nil =>
          have hpos := character_pos next left
          exact absurd hfront (Nat.not_le_of_gt hpos)
      | cons c front =>
          by_cases hescape : c = '\\'
          · subst hescape
            cases front with
            | nil =>
                have hlong := Nat.le_trans (le_closed _ _) hfront
                rw [List.length_singleton] at hlong
                omega
            | cons other tail =>
                simp only [List.cons_append, character] at hfront ⊢
                have hlong := Nat.le_trans (le_closed _ _) hfront
                simp only [List.length_cons] at hlong
                rw [runLength_cut (next :: left) (by omega)]
                simp only [← List.cons_append] at hfront ⊢
                exact closed_cut hfront
          · rw [List.cons_append, character_of_ne hescape] at hfront
            rw [List.cons_append, character_of_ne hescape, character_of_ne hescape]
            split at hfront
            · next hempty => rw [if_pos hempty, if_pos hempty]
            · next hfull =>
                rw [if_neg hfull, if_neg hfull, ← List.cons_append]
                exact closed_cut hfront

/-! ## Comments and pragmas -/

theorem blockComment_cut (hfront : (blockComment (front ++ left)).more ≤ front.length + 1) :
    blockComment front = blockComment (front ++ left) := by
  cases left with
  | nil => rw [List.append_nil]
  | cons next left =>
      have hcut : blockComment (front ++ []) = blockComment (front ++ next :: left) :=
        blockComment_exchange (List.cons_ne_nil next left) hfront
      rwa [List.append_nil] at hcut

theorem pragma_cut (hfront : (pragma (front ++ left)).more ≤ front.length + 2) :
    pragma front = pragma (front ++ left) := by
  cases left with
  | nil => rw [List.append_nil]
  | cons next left =>
      have hcut : pragma (front ++ []) = pragma (front ++ next :: left) :=
        pragma_exchange (List.cons_ne_nil next left) hfront
      rwa [List.append_nil] at hcut

theorem first_dash (rest : List Char) :
    first '-' rest =
      if beginsLineComment rest = true then lineComment rest else operator '-' rest := by
  have hblank : isBlank '-' = false := by decide
  unfold first
  rw [if_neg (by simp [hblank]), commentary?]
  split <;> rename_i hbegins
  · split at hbegins
    · next heq => rw [if_pos heq, Option.some.inj hbegins]
    · cases hbegins
  · split at hbegins
    · cases hbegins
    · next hnone =>
        rw [if_neg hnone]
        rfl

/-- Where dashes reach the cut, the character behind it is no operator character, as it would be
taken with them. -/
theorem beginsLineComment_cut (hfront : (first '-' (front ++ left)).more ≤ front.length) :
    beginsLineComment front = beginsLineComment (front ++ left) := by
  cases front with
  | nil =>
      have hhead : left.head? ≠ some '-' := by
        intro hhead
        obtain ⟨rest, rfl⟩ := List.head?_eq_some_iff.mp hhead
        rw [List.nil_append, first_dash] at hfront
        split at hfront
        · exact absurd hfront (Nat.not_le_of_gt (runLength_pos (by decide) rest))
        · exact absurd hfront (Nat.not_le_of_gt (runLength_pos (by decide) rest))
      simp [beginsLineComment, hhead]
  | cons c front =>
      unfold beginsLineComment
      rw [List.dropWhile_append]
      cases hdrop : (c :: front).dropWhile (· == '-') with
      | cons other back => simp
      | nil =>
          have hdashes : ∀ other ∈ c :: front, other = '-' := by
            simpa only [List.dropWhile_eq_nil_iff, beq_iff_eq] using hdrop
          cases hleft : (left.dropWhile (· == '-')).head?.any isSymbol with
          | false => simp [hleft]
          | true =>
              have hplain : beginsLineComment (c :: front ++ left) = false := by
                rw [beginsLineComment, List.dropWhile_append, hdrop]
                simp [hleft]
              rw [first_dash, if_neg (Bool.eq_false_iff.mp hplain)] at hfront
              have hsymbols : ∀ other ∈ c :: front, isSymbol other = true := by
                intro other hother
                rw [hdashes other hother]
                decide
              cases left with
              | nil => cases hleft
              | cons next left =>
                  have hnext : isSymbol next = true := by
                    by_cases hdash : next = '-'
                    · rw [hdash]
                      decide
                    · simpa [hdash] using hleft
                  exact absurd hfront (Nat.not_le_of_gt (length_lt_runLength hsymbols hnext left))

theorem first_brace {rest : List Char} (hcomment : rest.head? ≠ some '-') :
    first '\x7b' rest = ofKind .leftBrace 0 := by
  have hblank : isBlank '\x7b' = false := by decide
  unfold first
  rw [if_neg (by simp [hblank]), commentary?_of_brace hcomment]
  rfl

theorem blockComment_pos (rest : List Char) : 0 < (blockComment rest).more := by
  unfold blockComment
  split <;> exact Nat.lt_of_lt_of_le Nat.one_pos (Nat.le_add_right 1 _)

theorem two_le_pragma (rest : List Char) : 2 ≤ (pragma rest).more := by
  unfold pragma
  split <;> exact Nat.le_add_right 2 _

theorem first_brace_cut (hfront : (first '\x7b' (front ++ left)).more ≤ front.length) :
    first '\x7b' front = first '\x7b' (front ++ left) := by
  have hblank : isBlank '\x7b' = false := by decide
  by_cases hcomment : (front ++ left).head? = some '-'
  · obtain ⟨rest, hrest⟩ := List.head?_eq_some_iff.mp hcomment
    by_cases hpragma : rest.head? = some '#'
    · obtain ⟨rest, rfl⟩ := List.head?_eq_some_iff.mp hpragma
      have hwhole := first_of_commentary hblank (show commentary? '\x7b' ('-' :: '#' :: rest) =
        some (pragma rest) from rfl)
      rw [hrest, hwhole] at hfront
      obtain ⟨front, rfl, rfl⟩ := cons_cons_of_append hrest
        (Nat.le_trans (two_le_pragma rest) hfront)
      have hcut := first_of_commentary hblank (show commentary? '\x7b' ('-' :: '#' :: front) =
        some (pragma front) from rfl)
      rw [hrest, hwhole, hcut, pragma_cut hfront]
    · have hwhole := first_of_commentary hblank (commentary?_of_comment hpragma)
      rw [hrest, hwhole] at hfront
      obtain ⟨front, rfl, rfl⟩ := cons_of_append hrest
        (Nat.lt_of_lt_of_le (blockComment_pos rest) hfront)
      have hplain : front.head? ≠ some '#' := by
        intro hhead
        obtain ⟨rest, rfl⟩ := List.head?_eq_some_iff.mp hhead
        exact hpragma rfl
      have hcut := first_of_commentary hblank (commentary?_of_comment hplain)
      rw [hrest, hwhole, hcut, blockComment_cut hfront]
  · have hplain : front.head? ≠ some '-' := by
      intro hhead
      obtain ⟨rest, rfl⟩ := List.head?_eq_some_iff.mp hhead
      exact hcomment rfl
    rw [first_brace hcomment, first_brace hplain]

/-- A lexeme that ends in front of a cut does not depend on what has been cut off. -/
theorem first_cut {c : Char} (hfront : (first c (front ++ left)).more ≤ front.length)
    (hword : KeepsWord (front.drop (first c (front ++ left)).more) left) :
    first c front = first c (front ++ left) := by
  by_cases hdash : c = '-'
  · subst hdash
    have hbegins := beginsLineComment_cut hfront
    rw [first_dash] at hfront
    rw [first_dash, first_dash, hbegins]
    split at hfront
    · next hcomment =>
        rw [if_pos hcomment, if_pos hcomment, lineComment, lineComment, runLength_cut left hfront]
    · next hnone => rw [if_neg hnone, if_neg hnone, operator_cut hfront]
  by_cases hbrace : c = '\x7b'
  · subst hbrace
    exact first_brace_cut hfront
  have hnone : ∀ rest, commentary? c rest = none := fun rest => by
    simp [commentary?, hbrace]
  unfold first at hfront hword ⊢
  simp only [hnone] at hfront hword ⊢
  split_ifs at hfront hword ⊢
  · rw [blanks, blanks, runLength_cut left hfront]
  · exact number_cut hfront
  · exact constructorName_cut hfront hword
  · exact variableName_cut hfront
  · exact string_cut hfront
  · exact character_cut hfront
  · cases hkind : punctuation? c with
    | some kind => rfl
    | none =>
        rw [hkind] at hfront
        exact operator_cut hfront
  · rfl

end Lexeme

end LosslessTree
