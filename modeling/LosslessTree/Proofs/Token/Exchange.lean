import Mathlib.Data.List.Basic
import LosslessTree.Token.Source

/-!
What a lexeme depends on. A lexeme that ends in front of a blank or a brace does not depend on what
stands behind that character.
-/

namespace LosslessTree

namespace Text

/-- Characters that are not looked at beyond. -/
def isSeparator (c : Char) : Bool := isBlank c || c == '\x7b'

def Exchange (left right : List Char) : Prop :=
  ∃ c more others, isSeparator c = true ∧ left = c :: more ∧ right = c :: others

/-! ## Separators -/

theorem mem_codes_of_holds {code : Nat} {runs : List CodeRun}
    (hholds : CodeRun.holds code runs = true) :
    code ∈ runs.flatMap fun run => List.range' run.first (run.last + 1 - run.first) := by
  induction runs with
  | nil => cases hholds
  | cons run rest ih =>
      rw [List.flatMap_cons, List.mem_append]
      unfold CodeRun.holds at hholds
      split at hholds
      · left
        simp only [CodeRun.covers, Bool.and_eq_true, decide_eq_true_eq] at hholds
        rw [List.mem_range'_1]
        omega
      · exact .inr (ih hholds)

/-- Separators are part of blanks and of comments only. -/
theorem classes_of_separator {c : Char} (hseparator : isSeparator c = true) :
    isNameChar c = false ∧ isUppercase c = false ∧ isVariableStart c = false ∧
      isSymbol c = false ∧ isDecimalDigit c = false := by
  unfold isSeparator at hseparator
  rcases Bool.or_eq_true _ _ ▸ hseparator with hblank | hbrace
  · have hcodes : ∀ code ∈ blankRuns.flatMap fun run =>
        List.range' run.first (run.last + 1 - run.first),
        isNameChar (Char.ofNat code) = false ∧ isUppercase (Char.ofNat code) = false ∧
          isVariableStart (Char.ofNat code) = false ∧ isSymbol (Char.ofNat code) = false ∧
          isDecimalDigit (Char.ofNat code) = false := by decide +kernel
    have hclasses := hcodes _ (mem_codes_of_holds hblank)
    rwa [Char.ofNat_toNat] at hclasses
  · rw [beq_iff_eq.mp hbrace]
    decide +kernel

theorem ne_of_separator {c other : Char} (hseparator : isSeparator c = true)
    (hother : isNameChar other = true ∨ isSymbol other = true) : c ≠ other := by
  rintro rfl
  obtain ⟨hname, -, -, hsymbol, -⟩ := classes_of_separator hseparator
  rw [hname, hsymbol] at hother
  simp at hother

/-! ## Runs -/

namespace Exchange

variable {left right : List Char} (hexchange : Exchange left right)

include hexchange

theorem runLength_eq {test : Char → Bool} {front : List Char}
    (hfront : runLength test (front ++ left) ≤ front.length) :
    runLength test (front ++ right) = runLength test (front ++ left) := by
  induction front with
  | nil =>
      obtain ⟨c, more, others, -, rfl, rfl⟩ := hexchange
      cases htest : test c with
      | true => simp [runLength, htest] at hfront
      | false => simp [runLength, htest]
  | cons c front ih =>
      cases htest : test c with
      | true =>
          have hrest : runLength test (front ++ left) ≤ front.length := by
            simpa [runLength, htest] using hfront
          simpa [runLength, htest] using ih hrest
      | false => simp [runLength, htest]

theorem run {test : Char → Bool} (htest : ∀ c, isSeparator c = true → test c = false)
    (front : List Char) :
    runLength test (front ++ left) ≤ front.length ∧
      runLength test (front ++ right) = runLength test (front ++ left) := by
  have hfront : runLength test (front ++ left) ≤ front.length := by
    obtain ⟨c, more, others, hseparator, rfl, rfl⟩ := hexchange
    induction front with
    | nil => simp [runLength, htest c hseparator]
    | cons first front ih =>
        cases hfirst : test first with
        | true => simpa [runLength, hfirst] using ih
        | false => simp [runLength, hfirst]
  exact ⟨hfront, hexchange.runLength_eq hfront⟩

theorem head?_eq (front : List Char) : (front ++ right).head? = (front ++ left).head? := by
  obtain ⟨c, more, others, -, rfl, rfl⟩ := hexchange
  cases front <;> rfl

theorem exists_cons {front : List Char} {c : Char} (hhead : (front ++ left).head? = some c)
    (hother : isNameChar c = true ∨ isSymbol c = true) : ∃ rest, front = c :: rest := by
  cases front with
  | nil =>
      obtain ⟨separator, more, others, hseparator, rfl, -⟩ := hexchange
      exact absurd (Option.some.inj hhead) (ne_of_separator hseparator hother)
  | cons first rest => exact ⟨rest, by rw [Option.some.inj hhead]⟩

omit hexchange in
theorem drop_eq {front : List Char} (left right : List Char) {length : Nat} (hlength : length ≤ front.length) :
    ∃ back, (front ++ left).drop length = back ++ left ∧
      (front ++ right).drop length = back ++ right ∧ back.length + length = front.length :=
  ⟨front.drop length, List.drop_append_of_le_length hlength, List.drop_append_of_le_length hlength,
    by rw [List.length_drop]; omega⟩

omit hexchange in
theorem take_eq {front : List Char} (left right : List Char) {length : Nat} (hlength : length ≤ front.length) :
    (front ++ right).take length = (front ++ left).take length := by
  rw [List.take_append_of_le_length hlength, List.take_append_of_le_length hlength]

end Exchange

end Text

namespace Lexeme

open Text

/-! ## Comments and pragmas -/

theorem cons_of_append {front left rest : List Char} {c : Char}
    (htext : front ++ left = c :: rest) (hfront : 0 < front.length) :
    ∃ others, front = c :: others ∧ others ++ left = rest := by
  cases front with
  | nil => exact absurd hfront (Nat.lt_irrefl 0)
  | cons first others =>
      obtain ⟨rfl, hrest⟩ := List.cons.inj htext
      exact ⟨others, rfl, hrest⟩

theorem cons_cons_of_append {front left rest : List Char} {c next : Char}
    (htext : front ++ left = c :: next :: rest) (hfront : 2 ≤ front.length) :
    ∃ others, front = c :: next :: others ∧ others ++ left = rest := by
  obtain ⟨others, rfl, hmore⟩ := cons_of_append htext (by omega)
  obtain ⟨last, rfl, hrest⟩ := cons_of_append hmore (Nat.lt_of_succ_lt_succ hfront)
  exact ⟨last, rfl, hrest⟩

/-- What stands behind the end of a comment is not part of it. -/
theorem commentLength?_exchange {depth length : Nat} {front left : List Char} (right : List Char)
    (hlength : commentLength? depth (front ++ left) = some length) (hfront : length ≤ front.length) :
    commentLength? depth (front ++ right) = some length ∧ 0 < length := by
  generalize htext : front ++ left = text at hlength
  induction depth, text using commentLength?.induct generalizing front length with
  | case1 => cases hlength
  | case2 depth rest ih =>
      rw [commentLength?] at hlength
      obtain ⟨inner, hinner, rfl⟩ := Option.map_eq_some_iff.mp hlength
      obtain ⟨others, rfl, hrest⟩ := cons_cons_of_append htext (by omega)
      obtain ⟨heq, -⟩ := ih (Nat.le_of_add_le_add_right hfront) hrest hinner
      exact ⟨by simp only [List.cons_append, commentLength?, heq, Option.map_some], Nat.succ_pos _⟩
  | case3 rest =>
      rw [commentLength?] at hlength
      obtain rfl := Option.some.inj hlength
      obtain ⟨others, rfl, -⟩ := cons_cons_of_append htext hfront
      exact ⟨by simp only [List.cons_append, commentLength?], Nat.succ_pos _⟩
  | case4 rest depth ih =>
      rw [commentLength?] at hlength
      obtain ⟨inner, hinner, rfl⟩ := Option.map_eq_some_iff.mp hlength
      obtain ⟨others, rfl, hrest⟩ := cons_cons_of_append htext (by omega)
      obtain ⟨heq, -⟩ := ih (Nat.le_of_add_le_add_right hfront) hrest hinner
      exact ⟨by simp only [List.cons_append, commentLength?, heq, Option.map_some], Nat.succ_pos _⟩
  | case5 depth c rest hopen hclose ih =>
      rw [commentLength?] at hlength
      · obtain ⟨inner, hinner, rfl⟩ := Option.map_eq_some_iff.mp hlength
        obtain ⟨others, rfl, rfl⟩ := cons_of_append htext (by omega)
        obtain ⟨heq, hpos⟩ := ih (Nat.le_of_add_le_add_right hfront) rfl hinner
        rw [List.length_cons] at hfront
        obtain ⟨next, others, rfl⟩ := List.exists_cons_of_length_pos (l := others) (by omega)
        refine ⟨?_, Nat.succ_pos _⟩
        rw [List.cons_append, commentLength?, heq, Option.map_some]
        · rintro more rfl hmore
          obtain ⟨rfl, -⟩ := List.cons.inj hmore
          exact hopen _ rfl rfl
        · rintro more rfl hmore
          obtain ⟨rfl, -⟩ := List.cons.inj hmore
          exact hclose _ rfl rfl
      · exact hopen
      · exact hclose

theorem pragmaLength?_exchange {length : Nat} {front left : List Char} (right : List Char)
    (hlength : pragmaLength? (front ++ left) = some length) (hfront : length ≤ front.length) :
    pragmaLength? (front ++ right) = some length ∧ 2 < length := by
  generalize htext : front ++ left = text at hlength
  induction text using pragmaLength?.induct generalizing front length with
  | case1 => cases hlength
  | case2 rest =>
      rw [pragmaLength?] at hlength
      obtain rfl := Option.some.inj hlength
      obtain ⟨others, rfl, hrest⟩ := cons_cons_of_append htext (by omega)
      obtain ⟨others, rfl, -⟩ := cons_of_append hrest (by simp only [List.length_cons] at hfront; omega)
      exact ⟨by simp only [List.cons_append, pragmaLength?], Nat.lt_succ_self 2⟩
  | case3 c rest hclose ih =>
      rw [pragmaLength?] at hlength
      · obtain ⟨inner, hinner, rfl⟩ := Option.map_eq_some_iff.mp hlength
        obtain ⟨others, rfl, rfl⟩ := cons_of_append htext (by omega)
        obtain ⟨heq, hpos⟩ := ih (Nat.le_of_add_le_add_right hfront) rfl hinner
        refine ⟨?_, by omega⟩
        rw [List.cons_append, pragmaLength?, heq, Option.map_some]
        rintro more rfl hmore
        rw [List.length_cons] at hfront
        obtain ⟨last, rfl, -⟩ := cons_cons_of_append hmore (by omega)
        exact hclose _ rfl rfl
      · exact hclose

variable {left right : List Char} (hexchange : Exchange left right)

include hexchange

theorem beginsLineComment_exchange (front : List Char) :
    beginsLineComment (front ++ right) = beginsLineComment (front ++ left) := by
  have hhead := hexchange.head?_eq front
  obtain ⟨c, more, others, hseparator, rfl, rfl⟩ := hexchange
  have hdash : c ≠ '-' := ne_of_separator hseparator (.inr (by decide))
  have hdrop : ((front ++ c :: others).dropWhile (· == '-')).head? =
      ((front ++ c :: more).dropWhile (· == '-')).head? := by
    induction front with
    | nil => simp [hdash]
    | cons first front ih =>
        by_cases hfirst : first = '-'
        · subst hfirst
          simpa using ih (by cases front <;> rfl)
        · simp [hfirst]
  rw [beginsLineComment, beginsLineComment, hhead, hdrop]

/-! ## Numbers -/

omit hexchange in
theorem isDecimalDigit_of_separator (c : Char) (hseparator : isSeparator c = true) :
    isDecimalDigit c = false := (classes_of_separator hseparator).2.2.2.2

theorem fractionLength_exchange (front : List Char) :
    fractionLength (front ++ left) ≤ front.length ∧
      fractionLength (front ++ right) = fractionLength (front ++ left) := by
  cases front with
  | nil =>
      obtain ⟨c, more, others, hseparator, rfl, rfl⟩ := hexchange
      have hdot : c ≠ '.' := ne_of_separator hseparator (.inr (by decide))
      simp [fractionLength, hdot]
  | cons c front =>
      by_cases hdot : c = '.'
      · subst hdot
        obtain ⟨hdigits, heq⟩ := hexchange.run isDecimalDigit_of_separator front
        simp only [List.cons_append, fractionLength, heq, List.length_cons, and_true]
        split <;> omega
      · simp [fractionLength, hdot]

def signLength : List Char → Nat
  | [] => 0
  | c :: _ => if c = '+' ∨ c = '-' then 1 else 0

omit hexchange in
theorem exponentLength_mark {mark : Char} (hmark : mark = 'e' ∨ mark = 'E') (rest : List Char) :
    exponentLength (mark :: rest) =
      if runLength isDecimalDigit (rest.drop (signLength rest)) = 0 then 0
      else 1 + signLength rest + runLength isDecimalDigit (rest.drop (signLength rest)) := by
  have hsign : (if rest.head? = some '+' ∨ rest.head? = some '-' then 1 else 0) =
      signLength rest := by
    cases rest <;> simp [signLength]
  simp only [exponentLength, if_pos hmark, hsign]
  split <;> rename_i hdigits <;> simp [hdigits]

theorem signLength_exchange (front : List Char) :
    signLength (front ++ left) ≤ front.length ∧
      signLength (front ++ right) = signLength (front ++ left) := by
  cases front with
  | nil =>
      obtain ⟨c, more, others, hseparator, rfl, rfl⟩ := hexchange
      have hplus : c ≠ '+' := ne_of_separator hseparator (.inr (by decide))
      have hdash : c ≠ '-' := ne_of_separator hseparator (.inr (by decide))
      simp [signLength, hplus, hdash]
  | cons c front =>
      simp only [List.cons_append, signLength, List.length_cons, and_true]
      split <;> omega

theorem exponentLength_exchange (front : List Char) :
    exponentLength (front ++ left) ≤ front.length ∧
      exponentLength (front ++ right) = exponentLength (front ++ left) := by
  cases front with
  | nil =>
      obtain ⟨c, more, others, hseparator, rfl, rfl⟩ := hexchange
      have hlower : c ≠ 'e' := ne_of_separator hseparator (.inl (by decide))
      have hupper : c ≠ 'E' := ne_of_separator hseparator (.inl (by decide))
      simp [exponentLength, hlower, hupper]
  | cons mark front =>
      by_cases hmark : mark = 'e' ∨ mark = 'E'
      · obtain ⟨hsign, hsame⟩ := signLength_exchange hexchange front
        obtain ⟨back, hleft, hright, hback⟩ := Exchange.drop_eq left right hsign
        obtain ⟨hdigits, heq⟩ := hexchange.run isDecimalDigit_of_separator back
        simp only [List.cons_append, exponentLength_mark hmark, hsame, hleft, hright, heq,
          List.length_cons, and_true]
        split <;> omega
      · simp only [List.cons_append, exponentLength, if_neg hmark, Nat.zero_le, and_self]

theorem decimal_exchange (front : List Char) :
    decimal (front ++ right) = decimal (front ++ left) := by
  have hdigit (c : Char) (hseparator : isSeparator c = true) :
      (isDecimalDigit c || c == '_') = false := by
    have hunderscore : c ≠ '_' := ne_of_separator hseparator (.inl (by decide))
    simp [isDecimalDigit_of_separator c hseparator, hunderscore]
  obtain ⟨hwhole, hwholeEq⟩ := hexchange.run hdigit front
  obtain ⟨back, hleft, hright, hback⟩ := Exchange.drop_eq left right hwhole
  obtain ⟨hfraction, hfractionEq⟩ := fractionLength_exchange hexchange back
  obtain ⟨last, hleft', hright', -⟩ := Exchange.drop_eq left right hfraction
  obtain ⟨-, hexponentEq⟩ := exponentLength_exchange hexchange last
  simp only [decimal, hwholeEq, ← List.drop_drop, hleft, hright, hfractionEq, hleft', hright',
    hexponentEq]

omit hexchange in
theorem isDigitIn_of_separator (base : Nat) {c : Char} (hseparator : isSeparator c = true) :
    isDigitIn base c = false := by
  have hname : isNameChar c = true ∨ isDigitIn base c = (isDecimalDigit c && c.toNat - '0'.toNat < base) := by
    unfold isDigitIn
    split <;> first | exact .inl (by decide) | exact .inr rfl
  obtain ⟨hnone, -⟩ := classes_of_separator hseparator
  rw [hname.resolve_left (by simp [hnone]), isDecimalDigit_of_separator c hseparator, Bool.false_and]

theorem based_exchange (base : Nat) (front : List Char) :
    based base (front ++ right) = based base (front ++ left) := by
  have hdigit (c : Char) (hseparator : isSeparator c = true) :
      (isDigitIn base c || c == '_') = false := by
    have hunderscore : c ≠ '_' := ne_of_separator hseparator (.inl (by decide))
    simp [isDigitIn_of_separator base hseparator, hunderscore]
  obtain ⟨-, hdigits⟩ := hexchange.run hdigit front
  rw [based, based, hdigits]

omit hexchange in
theorem baseOfLetter?_of_separator {c : Char} (hseparator : isSeparator c = true) :
    baseOfLetter? c = none := by
  have hname : isNameChar c = true ∨ baseOfLetter? c = none := by
    unfold baseOfLetter?
    split <;> first | exact .inr rfl | exact .inl (by decide)
  obtain ⟨hnone, -⟩ := classes_of_separator hseparator
  exact hname.resolve_left (by simp [hnone])

theorem number_exchange (first : Char) (front : List Char) :
    number first (front ++ right) = number first (front ++ left) := by
  by_cases hzero : first = '0'
  · subst hzero
    cases front with
    | nil =>
        have hdecimal : ∀ c rest, isSeparator c = true →
            number '0' (c :: rest) = decimal (c :: rest) := fun c rest hseparator => by
          rw [number, baseOfLetter?_of_separator hseparator]
        obtain ⟨c, more, others, hseparator, rfl, rfl⟩ := id hexchange
        rw [List.nil_append, List.nil_append, hdecimal c _ hseparator, hdecimal c _ hseparator]
        exact decimal_exchange hexchange []
    | cons letter digits =>
        simp only [List.cons_append, number]
        split
        · exact based_exchange hexchange _ digits
        · exact decimal_exchange hexchange (letter :: digits)
  · have hdecimal : ∀ rest, number first rest = decimal rest := fun rest => by
      simp [number, hzero]
    rw [hdecimal, hdecimal, decimal_exchange hexchange front]

/-! ## Names and operators -/

omit hexchange in
theorem isNameChar_of_separator (c : Char) (hseparator : isSeparator c = true) :
    isNameChar c = false := (classes_of_separator hseparator).1

omit hexchange in
theorem isSymbol_of_separator (c : Char) (hseparator : isSeparator c = true) :
    isSymbol c = false := (classes_of_separator hseparator).2.2.2.1

theorem qualification_exchange (kind : TokenKind) (front : List Char) :
    qualification kind (front ++ right) = qualification kind (front ++ left) := by
  obtain ⟨length, hlength⟩ : ∃ length, front.length ≤ length := ⟨_, Nat.le_refl _⟩
  induction length generalizing kind front with
  | zero =>
      obtain rfl := List.length_eq_zero_iff.mp (Nat.le_zero.mp hlength)
      obtain ⟨c, more, others, hseparator, rfl, rfl⟩ := hexchange
      have hdot : c ≠ '.' := ne_of_separator hseparator (.inr (by decide))
      rw [qualification, qualification] <;> simp [hdot]
  | succ length ih =>
      by_cases hdot : front.head? = some '.'
      · obtain ⟨rest, rfl⟩ := List.head?_eq_some_iff.mp hdot
        cases rest with
        | nil =>
            obtain ⟨c, more, others, hseparator, rfl, rfl⟩ := hexchange
            obtain ⟨-, hupper, hstart, hsymbol, -⟩ := classes_of_separator hseparator
            rw [List.singleton_append, List.singleton_append, qualification, qualification]
            simp [hupper, hstart, hsymbol]
        | cons first rest =>
            obtain ⟨hname, hnameEq⟩ := hexchange.run isNameChar_of_separator (first :: rest)
            obtain ⟨-, hsymbolEq⟩ := hexchange.run isSymbol_of_separator (first :: rest)
            have htake := Exchange.take_eq left right hname
            obtain ⟨back, hleft, hright, hback⟩ := Exchange.drop_eq left right hname
            have hqualified := ih .qualifiedConId back (by
              simp only [List.length_cons] at hlength hback
              omega)
            simp only [List.cons_append] at *
            rw [qualification, qualification, hnameEq, hsymbolEq, htake, hleft, hright, hqualified]
      · cases front with
        | nil => exact ih kind [] (Nat.zero_le _)
        | cons c front =>
            have hother : c ≠ '.' := fun heq => hdot (heq ▸ rfl)
            rw [qualification, qualification] <;> simp [hother]

theorem constructorName_exchange (front : List Char) :
    constructorName (front ++ right) = constructorName (front ++ left) := by
  obtain ⟨hname, hnameEq⟩ := hexchange.run isNameChar_of_separator front
  obtain ⟨back, hleft, hright, -⟩ := Exchange.drop_eq left right hname
  simp only [constructorName, hnameEq, hleft, hright, qualification_exchange hexchange]

theorem variableName_exchange (first : Char) (front : List Char) :
    variableName first (front ++ right) = variableName first (front ++ left) := by
  obtain ⟨hname, hnameEq⟩ := hexchange.run isNameChar_of_separator front
  simp only [variableName, hnameEq, Exchange.take_eq left right hname]

theorem operator_exchange (first : Char) (front : List Char) :
    operator first (front ++ right) = operator first (front ++ left) := by
  obtain ⟨hsymbol, hsymbolEq⟩ := hexchange.run isSymbol_of_separator front
  simp only [operator, hsymbolEq, Exchange.take_eq left right hsymbol]

/-! ## Strings and characters -/

theorem stringEnd_exchange {spot : StringSpot} {front : List Char}
    (hfront : (stringEnd spot (front ++ left)).2 ≤ front.length) :
    stringEnd spot (front ++ right) = stringEnd spot (front ++ left) := by
  induction front generalizing spot with
  | nil =>
      obtain ⟨c, more, others, -, rfl, rfl⟩ := hexchange
      simp only [List.nil_append, List.length_nil] at hfront ⊢
      cases spot with
      | plain => simp only [stringEnd] at hfront; split_ifs at hfront <;> simp at hfront
      | escaped => simp only [stringEnd] at hfront; split_ifs at hfront; all_goals simp at hfront
      | gap =>
          simp only [stringEnd] at hfront ⊢
          split_ifs at hfront ⊢ <;> first | rfl | simp at hfront
  | cons c front ih =>
      have hfurther : ∀ spot, (stringEnd spot (front ++ left)).2 + 1 ≤ (c :: front).length →
          stringEnd spot (front ++ right) = stringEnd spot (front ++ left) :=
        fun spot hlength => ih (Nat.le_of_succ_le_succ hlength)
      simp only [List.cons_append] at hfront ⊢
      cases spot with
      | plain =>
          simp only [stringEnd, hexchange.head?_eq front] at hfront ⊢
          split_ifs at hfront ⊢ <;> first | rfl | rw [hfurther _ hfront]
      | escaped =>
          simp only [stringEnd] at hfront ⊢
          split_ifs at hfront ⊢ <;> first | rfl | rw [hfurther _ hfront]
      | gap =>
          simp only [stringEnd] at hfront ⊢
          split_ifs at hfront ⊢ <;> first | rfl | rw [hfurther _ hfront]

theorem string_exchange {front : List Char}
    (hfront : (string (front ++ left)).more ≤ front.length) :
    string (front ++ right) = string (front ++ left) := by
  have hend : (stringEnd .plain (front ++ left)).2 ≤ front.length := by
    unfold string at hfront
    split at hfront <;> rename_i heq <;> rw [heq] <;> exact hfront
  rw [string, string, stringEnd_exchange hexchange hend]

theorem closed_exchange {front : List Char} {length : Nat} (hlength : length ≤ front.length)  :
    closed (front ++ right) length = closed (front ++ left) length := by
  obtain ⟨back, hleft, hright, -⟩ := Exchange.drop_eq left right hlength
  rw [closed, closed, hleft, hright, hexchange.head?_eq back]

omit hexchange in
theorem le_closed (rest : List Char) (length : Nat) : length ≤ (closed rest length).more := by
  unfold closed
  split
  · exact Nat.le_succ length
  · exact Nat.le_refl length

omit hexchange in
theorem character_of_ne {c : Char} {rest : List Char} (hne : c ≠ '\\') :
    character (c :: rest) =
      if c = '\'' ∨ isLineEnd c then ofFlaw .emptyCharacter 1 else closed (c :: rest) 1 := by
  rw [character] <;> simp [hne]

theorem character_exchange {front : List Char}
    (hfront : (character (front ++ left)).more ≤ front.length) :
    character (front ++ right) = character (front ++ left) := by
  obtain ⟨separator, more, others, hseparator, hleft, -⟩ := id hexchange
  have hplain : separator ≠ '\\' := ne_of_separator hseparator (.inr (by decide))
  cases front with
  | nil =>
      have hpos : 0 < (character (separator :: more)).more := by
        rw [character_of_ne hplain]
        split
        · exact Nat.one_pos
        · exact Nat.lt_of_lt_of_le Nat.one_pos (le_closed _ 1)
      rw [List.nil_append, hleft] at hfront
      exact absurd hfront (Nat.not_le_of_gt hpos)
  | cons c front =>
      by_cases hescape : c = '\\'
      · subst hescape
        cases front with
        | nil =>
            rw [hleft, List.cons_append, List.nil_append, character] at hfront
            have hlong := Nat.le_trans (le_closed _ _) hfront
            simp only [List.length_singleton] at hlong
            omega
        | cons next tail =>
            simp only [List.cons_append, character] at hfront ⊢
            have htail := Nat.le_trans (le_closed _ _) hfront
            simp only [List.length_cons] at htail
            rw [hexchange.runLength_eq (by omega)]
            refine closed_exchange hexchange (show _ ≤ ('\\' :: next :: tail).length from ?_)
            simp only [List.length_cons]
            omega
      · rw [List.cons_append, List.cons_append, character_of_ne hescape, character_of_ne hescape]
        have hclosed := closed_exchange hexchange
          (show 1 ≤ (c :: front).length from Nat.succ_le_succ (Nat.zero_le _))
        rw [List.cons_append, List.cons_append] at hclosed
        rw [hclosed]

/-! ## Lexemes -/

omit hexchange in
theorem blockComment_exchange {front : List Char} (hleft : left ≠ [])
    (hfront : (blockComment (front ++ left)).more ≤ front.length + 1) :
    blockComment (front ++ right) = blockComment (front ++ left) := by
  unfold blockComment at hfront ⊢
  cases hlength : commentLength? 0 (front ++ left) with
  | none =>
      have hpos := List.length_pos_iff.mpr hleft
      simp only [hlength, ofFlaw, List.length_append] at hfront
      omega
  | some length =>
      simp only [hlength, ofKind] at hfront
      rw [(commentLength?_exchange right hlength (by omega)).1]

omit hexchange in
theorem pragma_exchange {front : List Char} (hleft : left ≠ [])
    (hfront : (pragma (front ++ left)).more ≤ front.length + 2) :
    pragma (front ++ right) = pragma (front ++ left) := by
  unfold pragma at hfront ⊢
  cases hlength : pragmaLength? (front ++ left) with
  | none =>
      have hpos := List.length_pos_iff.mpr hleft
      simp only [hlength, ofFlaw, List.length_append] at hfront
      omega
  | some length =>
      simp only [hlength, ofKind] at hfront
      rw [(pragmaLength?_exchange right hlength (by omega)).1]

omit hexchange in
theorem commentary?_of_comment {rest : List Char} (hpragma : rest.head? ≠ some '#') :
    commentary? '\x7b' ('-' :: rest) = some (blockComment rest) := by
  cases rest with
  | nil => rfl
  | cons c rest =>
      have hhash : c ≠ '#' := fun heq => hpragma (heq ▸ rfl)
      simp [commentary?, hhash]

omit hexchange in
theorem commentary?_of_brace {rest : List Char} (hcomment : rest.head? ≠ some '-') :
    commentary? '\x7b' rest = none := by
  cases rest with
  | nil => rfl
  | cons c rest =>
      have hdash : c ≠ '-' := fun heq => hcomment (heq ▸ rfl)
      simp [commentary?, hdash]

theorem commentary?_exchange {c : Char} {front : List Char}
    (hfront : ∀ lexeme ∈ commentary? c (front ++ left), lexeme.more ≤ front.length) :
    commentary? c (front ++ right) = commentary? c (front ++ left) := by
  by_cases hdash : c = '-'
  · subst hdash
    simp only [commentary?, beginsLineComment_exchange hexchange] at hfront ⊢
    split at hfront
    · rename_i hbegins
      have hrun := hfront _ rfl
      rw [if_pos hbegins, if_pos hbegins, lineComment, lineComment, hexchange.runLength_eq hrun]
    · rename_i hbegins
      rw [if_neg hbegins, if_neg hbegins]
  by_cases hbrace : c = '\x7b'
  · subst hbrace
    have hleft : left ≠ [] := by
      obtain ⟨_, _, _, -, rfl, -⟩ := hexchange
      exact List.cons_ne_nil _ _
    by_cases hcomment : (front ++ left).head? = some '-'
    · obtain ⟨rest, rfl⟩ := hexchange.exists_cons hcomment (.inr (by decide))
      by_cases hpragma : (rest ++ left).head? = some '#'
      · obtain ⟨rest, rfl⟩ := hexchange.exists_cons hpragma (.inr (by decide))
        have hmore := hfront _ rfl
        exact congrArg some (pragma_exchange hleft hmore)
      · have hother := hexchange.head?_eq rest ▸ hpragma
        rw [List.cons_append, commentary?_of_comment hpragma] at hfront
        rw [List.cons_append, List.cons_append, commentary?_of_comment hpragma,
          commentary?_of_comment hother, blockComment_exchange hleft (hfront _ rfl)]
    · rw [commentary?_of_brace hcomment, commentary?_of_brace (hexchange.head?_eq front ▸ hcomment)]
  · have hnone : ∀ rest, commentary? c rest = none := fun rest => by
      simp [commentary?, hbrace]
    rw [hnone, hnone]

/-- A lexeme that ends in front of a separator does not depend on what stands behind it. -/
theorem first_exchange {c : Char} {front : List Char}
    (hfront : (first c (front ++ left)).more ≤ front.length) :
    first c (front ++ right) = first c (front ++ left) := by
  unfold first at hfront ⊢
  by_cases hblank : isBlank c = true
  · rw [if_pos hblank] at hfront ⊢
    rw [if_pos hblank, blanks, blanks, hexchange.runLength_eq hfront]
  rw [if_neg hblank] at hfront ⊢
  rw [if_neg hblank, commentary?_exchange hexchange (by
    intro lexeme hlexeme
    rwa [Option.mem_def.mp hlexeme] at hfront)]
  cases hcommentary : commentary? c (front ++ left) with
  | some lexeme => rfl
  | none =>
      simp only [hcommentary, number_exchange hexchange, constructorName_exchange hexchange,
        variableName_exchange hexchange, operator_exchange hexchange] at hfront ⊢
      split_ifs at hfront ⊢ <;>
        first
          | rfl
          | exact string_exchange hexchange hfront
          | exact character_exchange hexchange hfront

end Lexeme

end LosslessTree
