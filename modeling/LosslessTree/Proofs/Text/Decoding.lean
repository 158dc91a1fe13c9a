import Mathlib.Data.List.TakeWhile
import LosslessTree.Proofs.Text.Escape

/-!
Decoding is exact. Texts with escapes are defined here as the language has them, from left to right,
with a meaning for each escape; decoding gives this meaning, and none for any other text.
-/

namespace LosslessTree

namespace Text

/-- What stands behind the backslash of an escape, and what the escape denotes in front of a tail.
The tail counts where the escape could go on: a name is the longest one that fits, and digits go on
as long as there are some. -/
inductive Escape : (body tail denoted : List Char) → Prop where
  | letter {c denoted : Char} (hletter : (c, denoted) ∈ letterEscapes) (tail : List Char) :
      Escape [c] tail [denoted]
  | empty (tail : List Char) : Escape ['&'] tail []
  | control {c : Char} (hcontrol : '@' ≤ c ∧ c ≤ '_') (tail : List Char) :
      Escape ['^', c] tail [Char.ofNat (c.toNat - 64)]
  | named {name : String} {code : Nat} {tail : List Char} (hname : (name, code) ∈ asciiNames)
      (hlongest : ∀ other ∈ asciiNames, other.1.toList <+: name.toList ++ tail →
        other.1.length ≤ name.length) :
      Escape name.toList tail [Char.ofNat code]
  | number (radix : Radix) {digits : List Digit} {tail : List Char} (hsome : digits ≠ [])
      (hbelow : ∀ digit ∈ digits, digit.value.val < radix.base)
      (hmaximal : ∀ digit : Digit, digit.value.val < radix.base → tail.head? ≠ some digit.char)
      (hscalar : (radix.number digits).isValidChar) :
      Escape (radix.mark ++ digits.map Digit.char) tail [Char.ofNat (radix.number digits)]
  | gap {blanks : List Char} (hsome : blanks ≠ []) (hblank : ∀ c ∈ blanks, isBlank c = true)
      (tail : List Char) : Escape (blanks ++ ['\\']) tail []

/-- Texts of plain characters and escapes, with what they denote. -/
inductive Decodes : (text value : List Char) → Prop where
  | nil : Decodes [] []
  | plain {c : Char} {rest value : List Char} (hplain : c ≠ '\\') (hrest : Decodes rest value) :
      Decodes (c :: rest) (c :: value)
  | escape {body tail denoted value : List Char} (hescape : Escape body tail denoted)
      (htail : Decodes tail value) : Decodes ('\\' :: (body ++ tail)) (denoted ++ value)

/-! ## Digits and names -/

theorem exists_digits {radix : Radix} {chars : List Char}
    (hchars : ∀ c ∈ chars, Lexeme.isDigitIn radix.base c = true) :
    ∃ digits : List Digit, (∀ digit ∈ digits, digit.value.val < radix.base) ∧
      chars = digits.map Digit.char := by
  induction chars with
  | nil => exact ⟨[], fun _ hdigit => absurd hdigit List.not_mem_nil, rfl⟩
  | cons c rest ih =>
      obtain ⟨hc, hrest⟩ := List.forall_mem_cons.mp hchars
      obtain ⟨digit, hless, rfl⟩ := exists_digit hc
      obtain ⟨digits, hbelow, rfl⟩ := ih hrest
      exact ⟨digit :: digits, List.forall_mem_cons.mpr ⟨hless, hbelow⟩, rfl⟩

theorem head?_ne_digit_iff {radix : Radix} {tail : List Char} :
    (∀ digit : Digit, digit.value.val < radix.base → tail.head? ≠ some digit.char) ↔
      ∀ c ∈ tail.head?, Lexeme.isDigitIn radix.base c = false := by
  constructor
  · intro hmaximal c hc
    apply Bool.eq_false_iff.mpr
    intro hdigit
    obtain ⟨digit, hless, rfl⟩ := exists_digit hdigit
    exact hmaximal digit hless hc
  · intro hnone digit hless hhead
    have hdigit := hnone _ hhead
    rw [isDigitIn_char hless] at hdigit
    cases hdigit

theorem exists_number {radix : Radix} {text : List Char} {denoted : Char} {length : Nat}
    (hnumber : numericEscape? radix.base text = some (denoted, length)) :
    ∃ digits tail, text = digits.map Digit.char ++ tail ∧ length = digits.length ∧ digits ≠ [] ∧
      (∀ digit ∈ digits, digit.value.val < radix.base) ∧
      (∀ digit : Digit, digit.value.val < radix.base → tail.head? ≠ some digit.char) ∧
      (radix.number digits).isValidChar ∧ denoted = Char.ofNat (radix.number digits) := by
  have hsplit := List.takeWhile_append_dropWhile (p := Lexeme.isDigitIn radix.base) (l := text)
  obtain ⟨digits, hbelow, hdigits⟩ := exists_digits fun c hc =>
    List.mem_takeWhile_imp (l := text) hc
  have hstop := List.head?_dropWhile_not (Lexeme.isDigitIn radix.base) text
  unfold numericEscape? at hnumber
  rw [hdigits] at hnumber hsplit
  split at hnumber
  · cases hnumber
  · next hsome =>
      rw [valueOfDigits_char, charOfCode?, List.length_map] at hnumber
      split at hnumber
      · next hscalar =>
          obtain ⟨rfl, rfl⟩ := Prod.mk.inj (Option.some.inj hnumber)
          refine ⟨digits, _, hsplit.symm, rfl, ?_, hbelow, ?_, hscalar, rfl⟩
          · exact fun hnil => hsome (List.map_eq_nil_iff.mpr hnil)
          · apply head?_ne_digit_iff.mpr
            intro c hc
            rw [hc] at hstop
            exact hstop
      · cases hnumber

theorem take_runLength (test : Char → Bool) (text : List Char) :
    text.take (runLength test text) = text.takeWhile test :=
  (List.prefix_iff_eq_take.mp (List.takeWhile_prefix test)).symm

theorem drop_runLength (test : Char → Bool) (text : List Char) :
    text.drop (runLength test text) = text.dropWhile test :=
  calc
    text.drop (runLength test text) =
        (text.takeWhile test ++ text.dropWhile test).drop (text.takeWhile test).length := by
      rw [List.takeWhile_append_dropWhile, runLength]
    _ = text.dropWhile test := List.drop_left

theorem exists_gap {text : List Char}
    (hend : (text.drop (runLength isBlank text)).head? = some '\\') :
    ∃ blanks tail, text = blanks ++ '\\' :: tail ∧ runLength isBlank text = blanks.length ∧
      ∀ c ∈ blanks, isBlank c = true := by
  have hsplit := List.takeWhile_append_dropWhile (p := isBlank) (l := text)
  rw [drop_runLength] at hend
  obtain ⟨tail, htail⟩ := List.head?_eq_some_iff.mp hend
  exact ⟨_, tail, by rw [← htail, hsplit], rfl, fun c hc => List.mem_takeWhile_imp hc⟩

theorem longest_of_find? {text : List Char} {name : String} {code : Nat}
    (hfind : controlNames.find? (fun entry => entry.1.toList.isPrefixOf text) = some (name, code)) :
    (name, code) ∈ asciiNames ∧ name.toList <+: text ∧
      ∀ other ∈ asciiNames, other.1.toList <+: text → other.1.length ≤ name.length := by
  obtain ⟨hbegins, before, after, hsplit, hbefore⟩ := List.find?_eq_some_iff_append.mp hfind
  have hname := List.isPrefixOf_iff_prefix.mp hbegins
  have hnames : asciiNames = before ++ (name, code) :: after := hsplit
  refine ⟨hnames ▸ List.mem_append_right _ List.mem_cons_self, hname, ?_⟩
  intro other hother hfits
  rw [hnames] at hother
  rcases List.mem_append.mp hother with hearlier | hlater
  · have hnot := hbefore other hearlier
    rw [List.isPrefixOf_iff_prefix.mpr hfits] at hnot
    cases hnot
  · rcases List.mem_cons.mp hlater with rfl | hlater
    · exact Nat.le_refl _
    · -- Of the names behind the one found, none goes on with it.
      have hpairs := controlNames_pairwise
      rw [hsplit] at hpairs
      have hrest := (List.pairwise_append.mp hpairs).2.1
      obtain ⟨hnot, -⟩ := (List.pairwise_cons.mp hrest).1 other hlater
      rcases List.prefix_or_prefix_of_prefix hname hfits with hlonger | hshorter
      · exact absurd hlonger hnot
      · have hle := hshorter.length_le
        rwa [String.length_toList, String.length_toList] at hle

/-! ## Single escapes -/

theorem mem_letterEscapes {c denoted : Char} (hsingle : singleEscape? c = some denoted) :
    (c, denoted) ∈ letterEscapes := by
  unfold singleEscape? at hsingle
  split at hsingle
  case h_11 => cases hsingle
  all_goals
    obtain rfl := Option.some.inj hsingle
    decide

/-- What is decoded behind a backslash is an escape, of which the length is told. -/
theorem escape_of_escape? {text : List Char} {denoted : Option Char} {length : Nat}
    (hescape : escape? text = some (denoted, length)) :
    ∃ body tail, text = body ++ tail ∧ length = body.length ∧
      Escape body tail denoted.toList := by
  unfold escape? at hescape
  split at hescape
  · cases hescape
  next c rest =>
    split at hescape
    · next hsingle =>
        obtain ⟨rfl, rfl⟩ := Prod.mk.inj (Option.some.inj hescape)
        exact ⟨[c], rest, rfl, rfl, .letter (mem_letterEscapes hsingle) rest⟩
    split at hescape
    · next hempty =>
        subst hempty
        obtain ⟨rfl, rfl⟩ := Prod.mk.inj (Option.some.inj hescape)
        exact ⟨['&'], rest, rfl, rfl, .empty rest⟩
    split at hescape
    · next hcaret =>
        subst hcaret
        split at hescape
        · next control tail =>
            split at hescape
            · next hcontrol =>
                obtain ⟨rfl, rfl⟩ := Prod.mk.inj (Option.some.inj hescape)
                exact ⟨['^', control], tail, rfl, rfl, .control hcontrol tail⟩
            · cases hescape
        · cases hescape
    split at hescape
    · next hmark =>
        obtain ⟨radix, hmarked, hradix⟩ : ∃ radix : Radix, [c] = radix.mark ∧
            (if c = 'x' then 16 else 8) = radix.base := by
          rcases hmark with rfl | rfl
          · exact ⟨.hexadecimal, rfl, rfl⟩
          · exact ⟨.octal, rfl, rfl⟩
        rw [hradix] at hescape
        obtain ⟨⟨number, count⟩, hnumber, heq⟩ := Option.map_eq_some_iff.mp hescape
        obtain ⟨rfl, rfl⟩ := Prod.mk.inj heq
        obtain ⟨digits, tail, rfl, rfl, hsome, hbelow, hmaximal, hscalar, rfl⟩ :=
          exists_number hnumber
        refine ⟨radix.mark ++ digits.map Digit.char, tail, ?_, ?_,
          .number radix hsome hbelow hmaximal hscalar⟩
        · rw [← hmarked]
          rfl
        · rw [← hmarked]
          simp
    split at hescape
    · obtain ⟨⟨number, count⟩, hnumber, heq⟩ := Option.map_eq_some_iff.mp hescape
      obtain ⟨rfl, rfl⟩ := Prod.mk.inj heq
      have hdecimal : numericEscape? Radix.decimal.base (c :: rest) = some (number, count) :=
        hnumber
      obtain ⟨digits, tail, htext, rfl, hsome, hbelow, hmaximal, hscalar, rfl⟩ :=
        exists_number hdecimal
      exact ⟨digits.map Digit.char, tail, htext, by rw [List.length_map],
        .number .decimal hsome hbelow hmaximal hscalar⟩
    split at hescape
    · next hblank =>
        dsimp only at hescape
        split at hescape
        · next hend =>
            obtain ⟨rfl, rfl⟩ := Prod.mk.inj (Option.some.inj hescape)
            obtain ⟨blanks, tail, htext, hlength, hall⟩ := exists_gap hend
            refine ⟨blanks ++ ['\\'], tail, ?_, ?_, .gap ?_ hall tail⟩
            · rw [htext, List.append_assoc]
              rfl
            · rw [hlength, List.length_append]
              rfl
            · rintro rfl
              obtain ⟨rfl, -⟩ := List.cons.inj htext
              exact absurd hblank (by decide)
        · cases hescape
    · obtain ⟨⟨name, code⟩, hfind, heq⟩ := Option.map_eq_some_iff.mp hescape
      obtain ⟨rfl, rfl⟩ := Prod.mk.inj heq
      obtain ⟨hname, ⟨tail, htail⟩, hlongest⟩ := longest_of_find? hfind
      rw [← htail] at hlongest
      exact ⟨name.toList, tail, htail.symm, String.length_toList.symm, .named hname hlongest⟩

theorem Escape.escape?_eq {body tail denoted : List Char} (hescape : Escape body tail denoted) :
    ∃ single : Option Char, escape? (body ++ tail) = some (single, body.length) ∧
      single.toList = denoted := by
  cases hescape with
  | letter hletter => exact ⟨_, escape?_letter hletter tail, rfl⟩
  | empty => exact ⟨none, escape?_empty tail, rfl⟩
  | control hcontrol => exact ⟨_, escape?_control hcontrol tail, rfl⟩
  | @named name code _ hname hlongest =>
      refine ⟨_, escape?_named hname ?_, rfl⟩
      rintro rfl hhead
      obtain ⟨rest, rfl⟩ := List.head?_eq_some_iff.mp hhead
      have hlonger : ("SOH", 1) ∈ asciiNames := by decide
      exact absurd (hlongest _ hlonger ⟨rest, rfl⟩) (by decide)
  | number radix hsome hbelow hmaximal hscalar =>
      exact ⟨_, escape?_number hsome hbelow hscalar (head?_ne_digit_iff.mp hmaximal), rfl⟩
  | gap hsome hblank => exact ⟨none, escape?_gap hsome hblank tail, rfl⟩

/-! ## Texts -/

theorem Decodes.unescape?_eq {text value : List Char} (hdecodes : Decodes text value) :
    unescape? text = some value := by
  induction hdecodes with
  | nil => rw [unescape?]
  | plain hplain _ ih => rw [unescape?_plain hplain, ih, Option.map_some]
  | escape hescape _ ih =>
      obtain ⟨single, hsingle, rfl⟩ := hescape.escape?_eq
      rw [unescape?_escape _ hsingle, ih, Option.map_some]

theorem decodes_of_unescape? {text value : List Char} (hvalue : unescape? text = some value) :
    Decodes text value := by
  induction text using unescape?.induct generalizing value with
  | case1 =>
      rw [unescape?] at hvalue
      obtain rfl := Option.some.inj hvalue
      exact .nil
  | case2 rest hnone =>
      rw [unescape?, if_pos rfl, hnone] at hvalue
      cases hvalue
  | case3 rest denoted length hsome ih =>
      rw [unescape?, if_pos rfl, hsome] at hvalue
      obtain ⟨more, hmore, rfl⟩ := Option.map_eq_some_iff.mp hvalue
      obtain ⟨body, tail, rfl, rfl, hescape⟩ := escape_of_escape? hsome
      rw [List.drop_left] at ih hmore
      exact .escape hescape (ih hmore)
  | case4 c rest hplain ih =>
      rw [unescape?_plain hplain] at hvalue
      obtain ⟨more, hmore, rfl⟩ := Option.map_eq_some_iff.mp hvalue
      exact .plain hplain (ih hmore)

theorem unescape?_eq_some_iff {text value : List Char} :
    unescape? text = some value ↔ Decodes text value :=
  ⟨decodes_of_unescape?, Decodes.unescape?_eq⟩

end Text

end LosslessTree
