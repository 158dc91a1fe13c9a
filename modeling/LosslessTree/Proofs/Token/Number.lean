import Mathlib.Data.List.Basic
import LosslessTree.Proofs.Token.Qualification

/-!
Numbers. A number token is the longest numeral at its place, and every numeral is read as one token.
Behind a letter that announces a base there may also stand underscores alone, which make no numeral.
-/

namespace LosslessTree

open Text

namespace Lexeme

/-! ## Numerals -/

def IsWhole (text : List Char) : Prop :=
  ∃ c rest, text = c :: rest ∧ isDecimalDigit c = true ∧
    ∀ c ∈ rest, (isDecimalDigit c || c == '_') = true

def IsFraction (text : List Char) : Prop :=
  ∃ digits, text = '.' :: digits ∧ digits ≠ [] ∧ ∀ c ∈ digits, isDecimalDigit c = true

def IsExponent (text : List Char) : Prop :=
  ∃ mark sign digits, text = mark :: (sign ++ digits) ∧ (mark = 'e' ∨ mark = 'E') ∧
    sign ∈ [[], ['+'], ['-']] ∧ digits ≠ [] ∧ ∀ c ∈ digits, isDecimalDigit c = true

def basedLetters : List (Char × Nat) :=
  [('x', 16), ('X', 16), ('o', 8), ('O', 8), ('b', 2), ('B', 2)]

/-- The numerals of each kind of token. -/
inductive Numeral : TokenKind → List Char → Prop where
  | decimal {whole : List Char} (hwhole : IsWhole whole) : Numeral .integer whole
  | based {letter : Char} {base : Nat} {digits : List Char}
      (hletter : (letter, base) ∈ basedLetters)
      (hdigits : ∀ c ∈ digits, (isDigitIn base c || c == '_') = true)
      (hsome : ∃ c ∈ digits, isDigitIn base c = true) : Numeral .integer ('0' :: letter :: digits)
  | float {whole fraction exponent : List Char} (hwhole : IsWhole whole)
      (hfraction : fraction = [] ∨ IsFraction fraction)
      (hexponent : exponent = [] ∨ IsExponent exponent)
      (hsome : fraction ≠ [] ∨ exponent ≠ []) : Numeral .float (whole ++ (fraction ++ exponent))

/-- A zero and a letter that announces a base, with underscores and no digits behind them. -/
def IsHollow (text : List Char) : Prop :=
  ∃ letter base underscores, text = '0' :: letter :: underscores ∧
    (letter, base) ∈ basedLetters ∧ underscores ≠ [] ∧ ∀ c ∈ underscores, c = '_'

theorem IsFraction.ne_nil {text : List Char} (hfraction : IsFraction text) : text ≠ [] := by
  obtain ⟨digits, rfl, -⟩ := hfraction
  exact List.cons_ne_nil _ _

theorem IsExponent.ne_nil {text : List Char} (hexponent : IsExponent text) : text ≠ [] := by
  obtain ⟨mark, sign, digits, rfl, -⟩ := hexponent
  exact List.cons_ne_nil _ _

theorem IsWhole.all {text : List Char} (hwhole : IsWhole text) :
    ∀ c ∈ text, (isDecimalDigit c || c == '_') = true := by
  obtain ⟨c, rest, rfl, hc, hrest⟩ := hwhole
  exact List.forall_mem_cons.mpr ⟨by rw [hc, Bool.true_or], hrest⟩

theorem baseOfLetter?_eq_some_iff {letter : Char} {base : Nat} :
    baseOfLetter? letter = some base ↔ (letter, base) ∈ basedLetters := by
  unfold baseOfLetter?
  split <;> simp_all [basedLetters, eq_comm]

theorem baseOfLetter?_eq_none {c : Char} (hc : (isDecimalDigit c || c == '_') = true) :
    baseOfLetter? c = none := by
  apply Option.eq_none_iff_forall_ne_some.mpr
  intro base hbase
  have hletter := baseOfLetter?_eq_some_iff.mp hbase
  have hall : ∀ entry ∈ basedLetters, (isDecimalDigit entry.1 || entry.1 == '_') = false := by decide
  cases hc.symm.trans (hall _ hletter)

theorem first_digit {c : Char} (hdigit : isDecimalDigit c = true) (rest : List Char) :
    first c rest = number c rest := by
  have hseparator : isSeparator c = false := by
    apply Bool.eq_false_iff.mpr
    intro hseparator
    cases hdigit.symm.trans (classes_of_separator hseparator).2.2.2.2
  simp only [isSeparator, Bool.or_eq_false_iff, beq_eq_false_iff_ne] at hseparator
  obtain ⟨hblank, hbrace⟩ := hseparator
  have hdash : c ≠ '-' := by
    rintro rfl
    exact absurd hdigit (by decide)
  have hnone : commentary? c rest = none := by
    simp [commentary?, hbrace]
  simp [first, hblank, hnone, hdigit]

/-! ## Numerals are read -/

theorem head?_ending {fraction exponent : List Char}
    (hfraction : fraction = [] ∨ IsFraction fraction)
    (hexponent : exponent = [] ∨ IsExponent exponent) :
    ∀ c ∈ (fraction ++ exponent).head?, c = '.' ∨ c = 'e' ∨ c = 'E' := by
  intro c hc
  rcases hfraction with rfl | ⟨digits, rfl, -⟩
  · rcases hexponent with rfl | ⟨mark, sign, digits, rfl, hmark, -⟩
    · cases hc
    · obtain rfl := Option.some.inj hc
      exact .inr hmark
  · exact .inl (Option.some.inj hc).symm

theorem fractionLength_append {fraction back : List Char}
    (hfraction : fraction = [] ∨ IsFraction fraction)
    (hback : ∀ c ∈ back.head?, c = 'e' ∨ c = 'E') :
    fractionLength (fraction ++ back) = fraction.length := by
  rcases hfraction with rfl | ⟨digits, rfl, hsome, hdigits⟩
  · cases back with
    | nil => rfl
    | cons c back =>
        have hdot : c ≠ '.' := by
          rintro rfl
          exact absurd (hback '.' rfl) (by decide)
        simp [fractionLength, hdot]
  · have hstop : ∀ c ∈ back.head?, isDecimalDigit c = false := by
      intro c hc
      rcases hback c hc with rfl | rfl <;> decide
    have hpos := List.length_pos_iff.mpr hsome
    rw [List.cons_append, fractionLength_dot, runLength_append hdigits hstop, if_neg (by omega)]
    rfl

theorem exponentLength_eq {exponent : List Char} (hexponent : exponent = [] ∨ IsExponent exponent) :
    exponentLength exponent = exponent.length := by
  rcases hexponent with rfl | ⟨mark, sign, digits, rfl, hmark, hsign, hsome, hdigits⟩
  · rfl
  · have hpos := List.length_pos_iff.mpr hsome
    have hlength : signLength (sign ++ digits) = sign.length := by
      simp only [List.mem_cons, List.not_mem_nil, or_false] at hsign
      rcases hsign with rfl | rfl | rfl
      · obtain ⟨c, rest, rfl⟩ := List.exists_cons_of_ne_nil hsome
        have hc := hdigits c List.mem_cons_self
        have hplain : ¬(c = '+' ∨ c = '-') := by
          rintro (rfl | rfl) <;> exact absurd hc (by decide)
        simp [signLength, hplain]
      · rfl
      · rfl
    rw [exponentLength_mark hmark, hlength, List.drop_left, runLength_all hdigits, if_neg (by omega),
      List.length_cons, List.length_append]
    omega

theorem decimal_parts {rest fraction exponent : List Char}
    (hrest : ∀ c ∈ rest, (isDecimalDigit c || c == '_') = true)
    (hfraction : fraction = [] ∨ IsFraction fraction)
    (hexponent : exponent = [] ∨ IsExponent exponent) :
    decimal (rest ++ (fraction ++ exponent)) =
      ofKind (if fraction = [] ∧ exponent = [] then .integer else .float)
        (rest ++ (fraction ++ exponent)).length := by
  have hstop : ∀ c ∈ (fraction ++ exponent).head?, (isDecimalDigit c || c == '_') = false := by
    intro c hc
    rcases head?_ending hfraction hexponent c hc with rfl | rfl | rfl <;> decide
  have hmark : ∀ c ∈ exponent.head?, c = 'e' ∨ c = 'E' := by
    intro c hc
    rcases hexponent with rfl | ⟨mark, sign, digits, rfl, hmark, -⟩
    · cases hc
    · obtain rfl := Option.some.inj hc
      exact hmark
  unfold decimal
  dsimp only
  rw [runLength_append hrest hstop, List.drop_left, fractionLength_append hfraction hmark,
    ← List.drop_drop, List.drop_left, List.drop_left, exponentLength_eq hexponent]
  simp only [List.length_append, List.length_eq_zero_iff, Nat.add_assoc]

theorem number_whole {c : Char} {rest fraction exponent : List Char}
    (hrest : ∀ c ∈ rest, (isDecimalDigit c || c == '_') = true)
    (hfraction : fraction = [] ∨ IsFraction fraction)
    (hexponent : exponent = [] ∨ IsExponent exponent) :
    number c (rest ++ (fraction ++ exponent)) = decimal (rest ++ (fraction ++ exponent)) := by
  -- No letter that announces a base can stand behind the first digit.
  have hletter : ∀ letter ∈ (rest ++ (fraction ++ exponent)).head?, baseOfLetter? letter = none := by
    intro letter hmem
    cases rest with
    | nil => rcases head?_ending hfraction hexponent letter hmem with rfl | rfl | rfl <;> rfl
    | cons d rest =>
        obtain rfl := Option.some.inj hmem
        exact baseOfLetter?_eq_none (hrest d List.mem_cons_self)
  unfold number
  split
  · next letter digits heq =>
      rw [heq] at hletter
      rw [hletter letter rfl]
  · rfl

/-- A numeral by itself is read to its end. -/
theorem number_of_numeral {kind : TokenKind} {numeral : List Char}
    (hnumeral : Numeral kind numeral) :
    ∃ c rest, numeral = c :: rest ∧ isDecimalDigit c = true ∧
      number c rest = ofKind kind rest.length := by
  cases hnumeral with
  | decimal hwhole =>
      obtain ⟨c, rest, rfl, hc, hrest⟩ := hwhole
      refine ⟨c, rest, rfl, hc, ?_⟩
      have hparts := decimal_parts hrest (.inl rfl) (.inl rfl)
      rw [← number_whole hrest (.inl rfl) (.inl rfl)] at hparts
      simpa using hparts
  | @based letter base digits hletter hdigits hsome =>
      refine ⟨'0', letter :: digits, rfl, by decide, ?_⟩
      obtain ⟨c, hc, -⟩ := hsome
      obtain ⟨count, hcount⟩ := Nat.exists_eq_succ_of_ne_zero
        (Nat.ne_of_gt (List.length_pos_of_mem hc))
      simp only [number, baseOfLetter?_eq_some_iff.mpr hletter, based, runLength_all hdigits, hcount,
        List.length_cons, Nat.add_comm 1]
  | float hwhole hfraction hexponent hsome =>
      obtain ⟨c, rest, rfl, hc, hrest⟩ := hwhole
      refine ⟨c, _, List.cons_append, hc, ?_⟩
      rw [number_whole hrest hfraction hexponent, decimal_parts hrest hfraction hexponent,
        if_neg (by rwa [not_and_or])]

/-! ## What is read is a numeral -/

theorem isFraction_take {rest : List Char} (hsome : fractionLength rest ≠ 0) :
    IsFraction (rest.take (fractionLength rest)) := by
  cases rest with
  | nil => exact absurd rfl hsome
  | cons c rest =>
      by_cases hdot : c = '.'
      · subst hdot
        rw [fractionLength_dot] at hsome ⊢
        split at hsome
        · exact absurd rfl hsome
        · next hdigits =>
            refine ⟨rest.takeWhile isDecimalDigit, ?_, ?_, fun c hc => List.mem_takeWhile_imp hc⟩
            · rw [if_neg hdigits, List.take_succ_cons, take_runLength]
            · exact List.length_pos_iff.mp (Nat.pos_of_ne_zero hdigits)
      · exact absurd (by simp [fractionLength, hdot]) hsome

theorem sign_take (rest : List Char) :
    rest.take (signLength rest) ∈ [[], ['+'], ['-']] := by
  unfold signLength
  split
  · exact List.mem_cons_self
  · split
    · next hsign => rcases hsign with rfl | rfl <;> simp
    · exact List.mem_cons_self

theorem isExponent_take {rest : List Char} (hsome : exponentLength rest ≠ 0) :
    IsExponent (rest.take (exponentLength rest)) := by
  cases rest with
  | nil => exact absurd rfl hsome
  | cons mark rest =>
      by_cases hmark : mark = 'e' ∨ mark = 'E'
      · rw [exponentLength_mark hmark] at hsome ⊢
        split at hsome
        · exact absurd rfl hsome
        · next hdigits =>
            refine ⟨mark, rest.take (signLength rest),
              (rest.drop (signLength rest)).takeWhile isDecimalDigit, ?_, hmark, sign_take rest,
              ?_, fun c hc => List.mem_takeWhile_imp hc⟩
            · rw [if_neg hdigits, Nat.add_assoc, Nat.add_comm, List.take_succ_cons, List.take_add,
                take_runLength]
            · exact List.length_pos_iff.mp (Nat.pos_of_ne_zero hdigits)
      · exact absurd (by simp only [exponentLength, if_neg hmark]) hsome

theorem take_cases {length : Nat} {text : List Char} {IsPart : List Char → Prop}
    (hpart : length ≠ 0 → IsPart (text.take length)) :
    text.take length = [] ∨ IsPart (text.take length) := by
  cases length with
  | zero => exact .inl rfl
  | succ length => exact .inr (hpart (Nat.succ_ne_zero length))

theorem numeral_of_decimal {c : Char} (hc : isDecimalDigit c = true) (rest : List Char) :
    Numeral (decimal rest).kind (c :: rest.take (decimal rest).more) := by
  unfold decimal
  dsimp only [ofKind, kind]
  generalize hrun : runLength (fun c => isDecimalDigit c || c == '_') rest = whole
  have hwhole : IsWhole (c :: rest.take whole) := by
    refine ⟨c, rest.take whole, rfl, hc, fun d hd => ?_⟩
    rw [← hrun, take_runLength] at hd
    exact List.mem_takeWhile_imp (p := fun c => isDecimalDigit c || c == '_') hd
  split
  · next hnone =>
      obtain ⟨hfraction, hexponent⟩ := hnone
      rw [hexponent, hfraction]
      exact .decimal hwhole
  · next hsome =>
      rw [List.take_add, List.take_add, ← List.cons_append, ← List.cons_append, List.append_assoc]
      refine .float hwhole (take_cases isFraction_take) (take_cases isExponent_take) ?_
      rw [not_and_or] at hsome
      exact hsome.imp (fun hfraction => (isFraction_take hfraction).ne_nil)
        fun hexponent => (isExponent_take hexponent).ne_nil

/-- Behind the letter of a base there are digits and underscores, if not underscores alone. -/
theorem numeral_of_based {letter : Char} {base : Nat} (hletter : (letter, base) ∈ basedLetters)
    {digits : List Char} (hkind : (based base digits).kind ≠ .flawed) :
    (based base digits).kind = .integer ∧
      (Numeral .integer ('0' :: (letter :: digits).take (based base digits).more) ∨
        IsHollow ('0' :: (letter :: digits).take (based base digits).more)) := by
  unfold based at hkind ⊢
  split at hkind
  · exact absurd rfl hkind
  · next count hrun =>
      have htake : (letter :: digits).take (ofKind .integer (1 + (count + 1))).more =
          letter :: digits.takeWhile fun c => isDigitIn base c || c == '_' := by
        change (letter :: digits).take (1 + (count + 1)) = _
        rw [Nat.add_comm, List.take_succ_cons, ← Nat.succ_eq_add_one, ← hrun, take_runLength]
      refine ⟨rfl, ?_⟩
      rw [htake]
      have hdigits : ∀ c ∈ digits.takeWhile fun c => isDigitIn base c || c == '_',
          (isDigitIn base c || c == '_') = true :=
        fun c hc => List.mem_takeWhile_imp (p := fun c => isDigitIn base c || c == '_') hc
      by_cases hsome : ∃ c ∈ digits.takeWhile fun c => isDigitIn base c || c == '_',
          isDigitIn base c = true
      · exact .inl (.based hletter hdigits hsome)
      · refine .inr ⟨letter, base, _, rfl, hletter, ?_, fun c hc => ?_⟩
        · apply List.length_pos_iff.mp
          change 0 < runLength _ digits
          omega
        · have hnone : isDigitIn base c = false := by
            apply Bool.eq_false_iff.mpr
            exact fun hdigit => hsome ⟨c, hc, hdigit⟩
          simpa [hnone] using hdigits c hc

/-- What is read behind a digit is a numeral, unless digits are missing. -/
theorem numeral_of_number {c : Char} (hc : isDecimalDigit c = true) {rest : List Char}
    (hkind : (number c rest).kind ≠ .flawed) :
    Numeral (number c rest).kind (c :: rest.take (number c rest).more) ∨
      (number c rest).kind = .integer ∧ IsHollow (c :: rest.take (number c rest).more) := by
  unfold number at hkind ⊢
  split
  · next letter digits =>
      split
      · next base hbase =>
          simp only [hbase] at hkind
          obtain ⟨hinteger, hread⟩ := numeral_of_based (baseOfLetter?_eq_some_iff.mp hbase) hkind
          rw [hinteger]
          exact hread.imp_right fun hhollow => ⟨rfl, hhollow⟩
      · exact .inl (numeral_of_decimal hc _)
  · exact .inl (numeral_of_decimal hc _)

theorem IsHollow.not_numeral {text : List Char} (hhollow : IsHollow text) (kind : TokenKind) :
    ¬Numeral kind text := by
  obtain ⟨letter, base, underscores, rfl, hletter, -, hunderscores⟩ := hhollow
  have hbase := baseOfLetter?_eq_some_iff.mpr hletter
  intro hnumeral
  have hread := number_of_numeral hnumeral
  generalize htext : '0' :: letter :: underscores = text at hnumeral hread
  cases hnumeral with
  | decimal hwhole =>
      obtain ⟨c, rest, heq, -, hrest⟩ := hwhole
      obtain ⟨-, rfl⟩ := List.cons.inj (htext.trans heq)
      cases hbase.symm.trans (baseOfLetter?_eq_none (hrest letter List.mem_cons_self))
  | based _ _ hsome =>
      obtain ⟨c, hc, hdigit⟩ := hsome
      obtain ⟨-, hbehind⟩ := List.cons.inj htext
      obtain ⟨-, rfl⟩ := List.cons.inj hbehind
      rw [hunderscores c hc] at hdigit
      cases hdigit
  | float =>
      obtain ⟨c, rest, heq, -, hnumber⟩ := hread
      obtain ⟨rfl, rfl⟩ := List.cons.inj (htext.trans heq)
      simp only [number, hbase] at hnumber
      have hinteger := (numeral_of_based hletter (by rw [hnumber, kind_ofKind]; decide)).1
      rw [hnumber] at hinteger
      cases hinteger

/-! ## Dots and marks in a numeral -/

theorem not_mem_of_test {test : Char → Bool} {c : Char} (hc : test c = false) {text : List Char}
    (htext : ∀ c ∈ text, test c = true) : c ∉ text :=
  fun hmem => Bool.noConfusion (hc.symm.trans (htext c hmem))

theorem exists_mark {exponent : List Char} (hexponent : IsExponent exponent) :
    ∃ mark behind, exponent = mark :: behind ∧ (mark = 'e' ∨ mark = 'E') ∧
      ∀ c ∈ behind, (isDecimalDigit c || ['+', '-'].contains c) = true := by
  obtain ⟨mark, sign, digits, rfl, hmark, hsign, -, hdigits⟩ := hexponent
  refine ⟨mark, sign ++ digits, rfl, hmark, List.forall_mem_append.mpr ⟨?_, ?_⟩⟩
  · simp only [List.mem_cons, List.not_mem_nil, or_false] at hsign
    rcases hsign with rfl | rfl | rfl <;> exact List.all_eq_true.mp rfl
  · intro c hc
    rw [hdigits c hc, Bool.true_or]

variable {kind : TokenKind} {numeral front back : List Char}

theorem not_mem_based {letter : Char} {base : Nat} (hletter : (letter, base) ∈ basedLetters)
    {test : Char → Bool} {digits : List Char} (hdigits : ∀ c ∈ digits, test c = true) {c : Char}
    (hc : test c = false) (hplain : c ∉ '0' :: basedLetters.map (·.1)) :
    c ∉ '0' :: letter :: digits := by
  obtain ⟨hzero, hletters⟩ := List.ne_and_not_mem_of_not_mem_cons hplain
  refine List.not_mem_cons_of_ne_of_not_mem hzero
    (List.not_mem_cons_of_ne_of_not_mem ?_ (not_mem_of_test hc hdigits))
  rintro rfl
  exact hletters (List.mem_map_of_mem hletter)

theorem digit_behind_dot (hnumeral : Numeral kind numeral) (hsplit : numeral = front ++ '.' :: back) :
    ∃ digit rest, back = digit :: rest ∧ isDecimalDigit digit = true := by
  have hdot : '.' ∈ numeral := by simp [hsplit]
  cases hnumeral with
  | decimal hwhole => exact absurd hdot (not_mem_of_test (by decide) hwhole.all)
  | based hletter hdigits =>
      exact absurd hdot (not_mem_based hletter hdigits rfl (by decide))
  | @float whole fraction exponent hwhole hfraction hexponent =>
      have hbefore : '.' ∉ whole := not_mem_of_test (by decide) hwhole.all
      have hbehind : '.' ∉ exponent := by
        rcases hexponent with rfl | hexponent
        · exact List.not_mem_nil
        · obtain ⟨mark, behind, rfl, hmark, hrest⟩ := exists_mark hexponent
          refine List.not_mem_cons_of_ne_of_not_mem ?_ (not_mem_of_test (by decide) hrest)
          rcases hmark with rfl | rfl <;> decide
      rcases hfraction with rfl | ⟨digits, rfl, hsome, hdigits⟩
      · simp [hbefore, hbehind] at hdot
      · have hinside : '.' ∉ digits ++ exponent :=
          List.not_mem_append (not_mem_of_test (by decide) hdigits) hbehind
        rw [List.cons_append, List.append_cons_inj_of_notMem hbefore hinside] at hsplit
        obtain ⟨-, -, rfl⟩ := hsplit
        obtain ⟨digit, rest, rfl⟩ := List.exists_cons_of_ne_nil hsome
        exact ⟨digit, rest ++ exponent, rfl, hdigits digit List.mem_cons_self⟩

theorem exponent_at_mark (hnumeral : Numeral kind numeral) {mark : Char}
    (hmark : mark = 'e' ∨ mark = 'E') (hsplit : numeral = front ++ mark :: back) :
    IsExponent (mark :: back) ∨
      ∃ letter digits, (letter, 16) ∈ basedLetters ∧ numeral = '0' :: letter :: digits := by
  have hmem : mark ∈ numeral := by simp [hsplit]
  have hplain : (isDecimalDigit mark || mark == '_') = false := by
    rcases hmark with rfl | rfl <;> decide
  cases hnumeral with
  | decimal hwhole => exact absurd hmem (not_mem_of_test hplain hwhole.all)
  | @based letter base digits hletter hdigits =>
      refine .inr ⟨letter, digits, ?_, rfl⟩
      by_contra hother
      have hnone : (isDigitIn base mark || mark == '_') = false := by
        have hall : ∀ entry ∈ basedLetters, entry = (entry.1, 16) ∨
            (isDigitIn entry.2 'e' = false ∧ isDigitIn entry.2 'E' = false) := by decide
        rcases hall _ hletter with heq | ⟨hsmall, hcapital⟩
        · exact absurd (heq ▸ hletter) hother
        · rcases hmark with rfl | rfl
          · rw [hsmall]
            rfl
          · rw [hcapital]
            rfl
      refine absurd hmem (not_mem_based hletter hdigits hnone ?_)
      rcases hmark with rfl | rfl <;> decide
  | @float whole fraction exponent hwhole hfraction hexponent =>
      have hbefore : mark ∉ whole ++ fraction := by
        refine List.not_mem_append (not_mem_of_test hplain hwhole.all) ?_
        rcases hfraction with rfl | ⟨digits, rfl, -, hdigits⟩
        · exact List.not_mem_nil
        · have hdigit := (Bool.or_eq_false_iff.mp hplain).1
          refine List.not_mem_cons_of_ne_of_not_mem ?_ (not_mem_of_test hdigit hdigits)
          rcases hmark with rfl | rfl <;> decide
      rw [← List.append_assoc] at hmem hsplit
      rcases hexponent with rfl | hexponent
      · exact absurd (List.append_nil (whole ++ fraction) ▸ hmem) hbefore
      · obtain ⟨other, behind, rfl, hother, hrest⟩ := exists_mark hexponent
        have hbehind : mark ∉ behind := by
          refine not_mem_of_test ?_ hrest
          rcases hmark with rfl | rfl <;> decide
        rw [List.append_cons_inj_of_notMem hbefore hbehind] at hsplit
        obtain ⟨-, rfl, rfl⟩ := hsplit
        exact .inl hexponent

theorem IsHollow.not_mem {text : List Char} (hhollow : IsHollow text) {c : Char}
    (hc : c = '.' ∨ c = 'e' ∨ c = 'E') : c ∉ text := by
  obtain ⟨letter, base, underscores, rfl, hletter, -, hunderscores⟩ := hhollow
  have htest : ∀ c ∈ underscores, (c == '_') = true := fun c hc => beq_iff_eq.mpr (hunderscores c hc)
  refine not_mem_based hletter htest ?_ ?_
  · rcases hc with rfl | rfl | rfl <;> rfl
  · rcases hc with rfl | rfl | rfl <;> decide

/-- A numeral in front of a text is not longer than what is read there. -/
theorem length_le_of_numeral {kind : TokenKind} {c : Char} {rest numeral : List Char}
    (hnumeral : Numeral kind numeral) (hbegins : numeral <+: c :: rest) :
    numeral.length ≤ (number c rest).more + 1 := by
  obtain ⟨first, behind, rfl, -, hread⟩ := number_of_numeral hnumeral
  obtain ⟨rfl, left, rfl⟩ := List.cons_prefix_cons.mp hbegins
  by_contra hlong
  rw [List.length_cons, Nat.not_le, Nat.add_lt_add_iff_right] at hlong
  -- What stops within the numeral stops there without the rest of the text as well.
  have hcut := number_cut (Nat.le_of_lt hlong)
  rw [← hcut, hread] at hlong
  exact Nat.lt_irrefl _ hlong

end Lexeme

namespace Token

open Lexeme

/-- A number token is what is read behind a digit, in front of the tokens that follow. -/
theorem exists_number {text : String} {before after : List Token} {token : Token}
    (hscan : ofText text = before ++ token :: after)
    (hkind : token.kind = .integer ∨ token.kind = .float) :
    ∃ c piece, token.text.toList = c :: piece ∧ isDecimalDigit c = true ∧
      (number c (piece ++ chars after)).kind = token.kind ∧
      (number c (piece ++ chars after)).more = piece.length := by
  obtain ⟨back, -, hback⟩ := scan_split hscan (List.cons_ne_nil _ _)
  cases back with
  | nil =>
      rw [scan] at hback
      obtain ⟨rfl, -⟩ := List.cons.inj hback
      rcases hkind with hkind | hkind <;> cases hkind
  | cons c rest =>
      rw [scan] at hback
      obtain ⟨rfl, rfl⟩ := List.cons.inj hback
      obtain ⟨hdigit, hnumber⟩ := number_of_kind hkind
      refine ⟨c, rest.take (first c rest).more, text_ofLexeme _ _ _, hdigit, ?_⟩
      rw [chars_scan, List.take_append_drop, ← hnumber, List.length_take,
        Nat.min_eq_left (more_first_le c rest)]
      exact ⟨rfl, rfl⟩

theorem ofText_numeral {kind : TokenKind} {numeral : List Char} (hnumeral : Numeral kind numeral) :
    ofText (String.ofList numeral) =
      [covering kind 0 (String.ofList numeral), eof (String.ofList numeral).utf8ByteSize] := by
  obtain ⟨c, rest, rfl, hdigit, hread⟩ := number_of_numeral hnumeral
  have hfirst : first c (rest ++ []) = Lexeme.ofKind kind rest.length := by
    rw [List.append_nil, first_digit hdigit, hread]
  have hscan := @scan_ofKind 0 c rest [] kind hfirst
  rw [List.append_nil, scan, Nat.zero_add] at hscan
  rw [ofText, String.toList_ofList, hscan]

end Token

open Lexeme

/-- Numbers are read exactly. A number token is a numeral of its kind, or a zero and the letter of a
base with underscores alone behind them, and no longer numeral begins where it does. So a dot in it has
a digit behind it, and an e that is no digit begins an exponent. Every numeral is one token. -/
theorem numbers_read (text : String) :
    (∀ before token after, Token.ofText text = before ++ token :: after →
      token.kind = .integer ∨ token.kind = .float →
        (Numeral token.kind token.text.toList ∨
          token.kind = .integer ∧ IsHollow token.text.toList) ∧
        (∀ kind numeral, Numeral kind numeral →
          numeral <+: token.text.toList ++ Token.chars after →
            numeral.length ≤ token.text.toList.length) ∧
        (∀ front back, token.text.toList = front ++ '.' :: back →
          ∃ digit rest, back = digit :: rest ∧ isDecimalDigit digit = true) ∧
        ∀ front mark back, mark = 'e' ∨ mark = 'E' → token.text.toList = front ++ mark :: back →
          IsExponent (mark :: back) ∨ ∃ letter digits,
            (letter, 16) ∈ basedLetters ∧ token.text.toList = '0' :: letter :: digits) ∧
    ∀ kind numeral, Numeral kind numeral →
      Token.ofText (String.ofList numeral) =
        [.covering kind 0 (String.ofList numeral),
          .eof (String.ofList numeral).utf8ByteSize] := by
  refine ⟨?_, fun _ _ => Token.ofText_numeral⟩
  intro before token after hscan hkind
  obtain ⟨c, piece, htext, hdigit, hread, hmore⟩ := Token.exists_number hscan hkind
  have hfine : (number c (piece ++ Token.chars after)).kind ≠ .flawed := by
    rw [hread]
    rcases hkind with hkind | hkind <;> rw [hkind] <;> decide
  have hnumeral := numeral_of_number hdigit hfine
  rw [hread, hmore, List.take_left] at hnumeral
  rw [htext]
  refine ⟨hnumeral, ?_, ?_, ?_⟩
  · intro kind numeral hother hbegins
    rw [List.cons_append] at hbegins
    have hlength := length_le_of_numeral hother hbegins
    rwa [hmore] at hlength
  · intro front back hsplit
    rcases hnumeral with hnumeral | ⟨-, hhollow⟩
    · exact digit_behind_dot hnumeral hsplit
    · exact absurd (by simp [hsplit]) (hhollow.not_mem (.inl rfl))
  · intro front mark back hmark hsplit
    rcases hnumeral with hnumeral | ⟨-, hhollow⟩
    · exact exponent_at_mark hnumeral hmark hsplit
    · exact absurd (by simp [hsplit]) (hhollow.not_mem (.inr hmark))

/-- A number in front of the dots of a range, and one behind them. -/
theorem numbers_read_of_range :
    Token.ofText "[1_0.5e-3..0xF]" =
        [.covering .leftBracket 0 "["] ++ .covering .float 1 "1_0.5e-3" ::
          [.covering .dotDot 9 "..", .covering .integer 11 "0xF", .covering .rightBracket 14 "]",
            .eof 15] ∧
      (Numeral .float "1_0.5e-3".toList ∨
        TokenKind.float = .integer ∧ IsHollow "1_0.5e-3".toList) ∧
      (∀ kind numeral, Numeral kind numeral → numeral <+: "1_0.5e-3..0xF]".toList →
        numeral.length ≤ "1_0.5e-3".toList.length) ∧
      Numeral .integer "0xF".toList ∧
      Token.ofText (String.ofList "0xF".toList) =
        [.covering .integer 0 (String.ofList "0xF".toList),
          .eof (String.ofList "0xF".toList).utf8ByteSize] := by
  have hscan : Token.ofText "[1_0.5e-3..0xF]" =
      [.covering .leftBracket 0 "["] ++ .covering .float 1 "1_0.5e-3" ::
        [.covering .dotDot 9 "..", .covering .integer 11 "0xF", .covering .rightBracket 14 "]",
          .eof 15] := by
    decide +kernel
  have hnumeral : Numeral .integer "0xF".toList :=
    @Numeral.based 'x' 16 ['F'] (by decide) (List.all_eq_true.mp rfl)
      ⟨'F', List.mem_cons_self, by decide⟩
  obtain ⟨hpieces, hwhole⟩ := numbers_read "[1_0.5e-3..0xF]"
  obtain ⟨hread, hlongest, -⟩ := hpieces _ _ _ hscan (.inr rfl)
  exact ⟨hscan, hread, hlongest, hnumeral, hwhole _ _ hnumeral⟩

/-- A number token of underscores without digits. -/
theorem exists_number_without_digits :
    ∃ token ∈ Token.ofText "0x_", token.kind = .integer ∧
      ∀ kind, ¬Numeral kind token.text.toList :=
  ⟨.covering .integer 0 "0x_", by decide +kernel, rfl,
    IsHollow.not_numeral ⟨'x', 16, ['_'], by decide +kernel, by decide, List.cons_ne_nil _ _,
      fun _ => List.mem_singleton.mp⟩⟩

end LosslessTree
