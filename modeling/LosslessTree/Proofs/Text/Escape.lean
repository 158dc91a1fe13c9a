import Mathlib.Data.List.Chain
import Mathlib.Data.Nat.Digits.Defs
import LosslessTree.Text.Escape

/-!
What literals are made of, as the language defines it: plain characters, and escapes by a letter, by
caret, by name and by number, and two that denote nothing. Where no number or name goes on in the
character behind it, decoding gives back what the items denote.
-/

namespace LosslessTree

namespace Text

/-! ## Items -/

structure Digit where
  value : Fin 16
  capital : Bool

def Digit.char (digit : Digit) : Char :=
  (if digit.capital then "0123456789ABCDEF" else "0123456789abcdef").toList.getD digit.value '0'

inductive Radix where
  | decimal
  | octal
  | hexadecimal

namespace Radix

def base : Radix → Nat
  | decimal => 10
  | octal => 8
  | hexadecimal => 16

def mark : Radix → List Char
  | decimal => []
  | octal => ['o']
  | hexadecimal => ['x']

def number (radix : Radix) (digits : List Digit) : Nat :=
  Nat.ofDigits radix.base (digits.map (·.value.val)).reverse

end Radix

def letterEscapes : List (Char × Char) := [
  ('n', '\n'), ('t', '\t'), ('r', '\r'), ('a', '\x07'), ('b', '\x08'), ('f', '\x0c'),
  ('v', '\x0b'), ('"', '"'), ('\'', '\''), ('\\', '\\')]

/-- The names of the characters up to the space, in their order, and of the last one. -/
def asciiNames : List (String × Nat) :=
  ["NUL", "SOH", "STX", "ETX", "EOT", "ENQ", "ACK", "BEL", "BS", "HT", "LF", "VT", "FF", "CR",
    "SO", "SI", "DLE", "DC1", "DC2", "DC3", "DC4", "NAK", "SYN", "ETB", "CAN", "EM", "SUB", "ESC",
    "FS", "GS", "RS", "US", "SP"].zipIdx ++ [("DEL", 127)]

inductive LiteralItem where
  | plain (c : Char) (hplain : c ∉ ['"', '\\', '\r', '\n'])
  | letter (c denoted : Char) (hletter : (c, denoted) ∈ letterEscapes)
  | empty
  | control (c : Char) (hcontrol : '@' ≤ c ∧ c ≤ '_')
  | named (name : String) (code : Nat) (hname : (name, code) ∈ asciiNames)
  | number (radix : Radix) (digits : List Digit) (hsome : digits ≠ [])
      (hbelow : ∀ digit ∈ digits, digit.value.val < radix.base)
      (hscalar : (radix.number digits).isValidChar)
  | gap (blanks : List Char) (hsome : blanks ≠ []) (hblank : ∀ c ∈ blanks, isBlank c = true)

namespace LiteralItem

def spell : LiteralItem → List Char
  | plain c _ => [c]
  | letter c _ _ => ['\\', c]
  | empty => ['\\', '&']
  | control c _ => ['\\', '^', c]
  | named name _ _ => '\\' :: name.toList
  | number radix digits _ _ _ => '\\' :: (radix.mark ++ digits.map Digit.char)
  | gap blanks _ _ => '\\' :: (blanks ++ ['\\'])

def denoted : LiteralItem → List Char
  | plain c _ => [c]
  | letter _ denoted _ => [denoted]
  | empty => []
  | control c _ => [Char.ofNat (c.toNat - 64)]
  | named _ code _ => [Char.ofNat code]
  | number radix digits _ _ _ => [Char.ofNat (radix.number digits)]
  | gap _ _ _ => []

/-- Whether an item ends where a further one begins. Digits would go on in a plain digit, and one of
the names is the beginning of another one. -/
def Apart : LiteralItem → LiteralItem → Prop
  | number radix _ _ _ _, plain c _ =>
    ∀ digit : Digit, digit.value.val < radix.base → c ≠ digit.char
  | named name _ _, plain c _ => name = "SO" → c ≠ 'H'
  | _, _ => True

end LiteralItem

/-! ## Digits -/

theorem isDigitIn_char {radix : Radix} {digit : Digit} (hbelow : digit.value.val < radix.base) :
    Lexeme.isDigitIn radix.base digit.char = true := by
  obtain ⟨value, capital⟩ := digit
  revert value capital
  cases radix <;> decide +kernel

theorem digitValue_char (digit : Digit) : digitValue digit.char = digit.value := by
  obtain ⟨value, capital⟩ := digit
  revert value capital
  decide +kernel

theorem isDecimalDigit_iff {c : Char} : isDecimalDigit c = true ↔ 48 ≤ c.toNat ∧ c.toNat ≤ 57 := by
  simp only [isDecimalDigit, Bool.and_eq_true, decide_eq_true_eq]
  rfl

theorem toNat_lt_of_isDigitIn {base : Nat} {c : Char} (hdigit : Lexeme.isDigitIn base c = true) :
    c.toNat < 128 := by
  unfold Lexeme.isDigitIn at hdigit
  split at hdigit
  case h_13 =>
    have hdecimal := isDecimalDigit_iff.mp (Bool.and_eq_true_iff.mp hdigit).1
    omega
  all_goals decide

theorem exists_digit {radix : Radix} {c : Char} (hdigit : Lexeme.isDigitIn radix.base c = true) :
    ∃ digit : Digit, digit.value.val < radix.base ∧ c = digit.char := by
  have hall : ∀ code < 128, Lexeme.isDigitIn radix.base (Char.ofNat code) = true →
      digitValue (Char.ofNat code) % 16 < radix.base ∧ Char.ofNat code =
        Digit.char ⟨Fin.ofNat 16 (digitValue (Char.ofNat code)), decide (code < 97)⟩ := by
    cases radix <;> decide +kernel
  have hc := hall c.toNat (toNat_lt_of_isDigitIn hdigit)
  rw [Char.ofNat_toNat] at hc
  exact ⟨⟨Fin.ofNat 16 (digitValue c), decide (c.toNat < 97)⟩, hc hdigit⟩

theorem valueOfDigits_char (radix : Radix) (digits : List Digit) :
    valueOfDigits radix.base (digits.map Digit.char) = radix.number digits := by
  rw [valueOfDigits, Radix.number, Nat.ofDigits_eq_foldr, List.foldr_reverse, List.foldl_map,
    List.foldl_map]
  simp only [digitValue_char, Nat.cast_id]
  congr 1
  funext value digit
  rw [Nat.mul_comm, Nat.add_comm]

/-! ## Decoding -/

theorem unescape?_plain {c : Char} (hc : c ≠ '\\') (rest : List Char) :
    unescape? (c :: rest) = (unescape? rest).map (c :: ·) := by
  rw [unescape?, if_neg hc]

theorem unescape?_escape (body : List Char) {tail : List Char} {denoted : Option Char}
    (hescape : escape? (body ++ tail) = some (denoted, body.length)) :
    unescape? ('\\' :: (body ++ tail)) = (unescape? tail).map (denoted.toList ++ ·) := by
  rw [unescape?, if_pos rfl, hescape]
  simp only [List.drop_left]

theorem toNat_of_isBlank {c : Char} (hblank : isBlank c = true) : c.toNat < 33 ∨ 127 < c.toNat := by
  by_contra hnone
  push Not at hnone
  simp only [isBlank, blankRuns, CodeRun.holds, CodeRun.covers] at hblank
  grind

theorem singleEscape?_of_isBlank {c : Char} (hblank : isBlank c = true) :
    singleEscape? c = none := by
  unfold singleEscape?
  split
  case h_11 => rfl
  all_goals exact absurd hblank (by decide)

theorem escape?_letter {c denoted : Char} (hletter : (c, denoted) ∈ letterEscapes)
    (tail : List Char) : escape? (c :: tail) = some (some denoted, 1) := by
  have hall : ∀ entry ∈ letterEscapes, singleEscape? entry.1 = some entry.2 := by decide
  simp only [escape?, hall _ hletter]

theorem escape?_empty (tail : List Char) : escape? ('&' :: tail) = some (none, 1) := rfl

theorem escape?_control {c : Char} (hcontrol : '@' ≤ c ∧ c ≤ '_') (tail : List Char) :
    escape? ('^' :: c :: tail) = some (some (Char.ofNat (c.toNat - 64)), 2) := by
  have hnone : singleEscape? '^' = none := rfl
  simp only [escape?, hnone, if_neg (show '^' ≠ '&' by decide), if_true, if_pos hcontrol]
  rfl

section

variable {radix : Radix} {digits : List Digit} {tail : List Char}

theorem numericEscape?_char (hsome : digits ≠ [])
    (hbelow : ∀ digit ∈ digits, digit.value.val < radix.base)
    (hscalar : (radix.number digits).isValidChar)
    (htail : ∀ c ∈ tail.head?, Lexeme.isDigitIn radix.base c = false) :
    numericEscape? radix.base (digits.map Digit.char ++ tail) =
      some (Char.ofNat (radix.number digits), digits.length) := by
  have hdigits : ∀ c ∈ digits.map Digit.char, Lexeme.isDigitIn radix.base c = true := by
    intro c hc
    obtain ⟨digit, hdigit, rfl⟩ := List.mem_map.mp hc
    exact isDigitIn_char (hbelow digit hdigit)
  have hstop : tail.takeWhile (Lexeme.isDigitIn radix.base) = [] := by
    cases tail with
    | nil => rfl
    | cons c tail => exact List.takeWhile_cons_of_neg (by simp [htail c rfl])
  have hrun : (digits.map Digit.char ++ tail).takeWhile (Lexeme.isDigitIn radix.base) =
      digits.map Digit.char := by
    rw [List.takeWhile_append_of_pos hdigits, hstop, List.append_nil]
  unfold numericEscape?
  rw [hrun]
  split
  · next hnil => exact absurd (List.map_eq_nil_iff.mp hnil) hsome
  · rw [valueOfDigits_char, charOfCode?, if_pos hscalar, List.length_map]
    rfl

/-- What follows the backslash of a number is no other escape. -/
theorem escape?_number (hsome : digits ≠ [])
    (hbelow : ∀ digit ∈ digits, digit.value.val < radix.base)
    (hscalar : (radix.number digits).isValidChar)
    (htail : ∀ c ∈ tail.head?, Lexeme.isDigitIn radix.base c = false) :
    escape? (radix.mark ++ digits.map Digit.char ++ tail) =
      some (some (Char.ofNat (radix.number digits)),
        (radix.mark ++ digits.map Digit.char).length) := by
  have hnumber := numericEscape?_char hsome hbelow hscalar htail
  cases radix with
  | decimal =>
      obtain ⟨first, rest, rfl⟩ := List.exists_cons_of_ne_nil hsome
      have hfirst : first.value.val < 10 := hbelow first List.mem_cons_self
      have hother : singleEscape? first.char = none ∧ first.char ≠ '&' ∧ first.char ≠ '^' ∧
          ¬(first.char = 'x' ∨ first.char = 'o') ∧ isDecimalDigit first.char = true := by
        obtain ⟨value, capital⟩ := first
        clear hnumber hsome hbelow hscalar
        revert value capital
        decide +kernel
      obtain ⟨hsingle, hempty, hcontrol, hmark, hdigit⟩ := hother
      simp only [Radix.mark, List.nil_append, List.map_cons, List.cons_append, escape?, hsingle,
        if_neg hempty, if_neg hcontrol, if_neg hmark, if_pos hdigit]
      rw [List.map_cons, List.cons_append] at hnumber
      rw [show (10 : Nat) = Radix.decimal.base from rfl, hnumber]
      simp
  | octal =>
      have hsingle : singleEscape? 'o' = none := rfl
      simp only [Radix.mark, List.cons_append, List.nil_append, escape?, hsingle]
      rw [if_neg (by decide), if_neg (by decide), if_pos (by decide), if_neg (by decide),
        show (8 : Nat) = Radix.octal.base from rfl, hnumber]
      simp
  | hexadecimal =>
      have hsingle : singleEscape? 'x' = none := rfl
      simp only [Radix.mark, List.cons_append, List.nil_append, escape?, hsingle]
      rw [if_neg (by decide), if_neg (by decide), if_pos (by decide), if_pos trivial,
        show (16 : Nat) = Radix.hexadecimal.base from rfl, hnumber]
      simp

end

theorem escape?_gap {blanks : List Char} (hsome : blanks ≠ [])
    (hblank : ∀ c ∈ blanks, isBlank c = true) (tail : List Char) :
    escape? (blanks ++ ['\\'] ++ tail) = some (none, (blanks ++ ['\\']).length) := by
  have hrun : runLength isBlank (blanks ++ ['\\'] ++ tail) = blanks.length := by
    rw [runLength, List.append_assoc, List.takeWhile_append_of_pos hblank]
    have hstop : (['\\'] ++ tail).takeWhile isBlank = [] :=
      List.takeWhile_cons_of_neg (by decide)
    rw [hstop, List.append_nil]
  have hdrop : (blanks ++ ['\\'] ++ tail).drop blanks.length = '\\' :: tail := by
    rw [List.append_assoc, List.drop_left]
    rfl
  obtain ⟨c, rest, rfl⟩ := List.exists_cons_of_ne_nil hsome
  have hc := hblank c List.mem_cons_self
  have hcode := toNat_of_isBlank hc
  have hother : c ≠ '&' ∧ c ≠ '^' ∧ ¬(c = 'x' ∨ c = 'o') ∧ ¬isDecimalDigit c = true := by
    refine ⟨?_, ?_, ?_, ?_⟩
    · rintro rfl
      exact absurd hcode (by decide)
    · rintro rfl
      exact absurd hcode (by decide)
    · rintro (rfl | rfl) <;> exact absurd hcode (by decide)
    · intro hdigit
      have hdecimal := isDecimalDigit_iff.mp hdigit
      omega
  obtain ⟨hempty, hcontrol, hmark, hdigit⟩ := hother
  rw [List.cons_append, List.cons_append] at hrun hdrop ⊢
  simp only [escape?, singleEscape?_of_isBlank hc, if_neg hempty, if_neg hcontrol, if_neg hmark,
    if_neg hdigit, if_pos hc, hrun, hdrop]
  simp

/-- Of two names one of which begins the other there is one pair, with the longer one in front. -/
theorem controlNames_pairwise : controlNames.Pairwise fun earlier later =>
    ¬earlier.1.toList <+: later.1.toList ∧
      (later.1.toList <+: earlier.1.toList → later.1 = "SO" ∧ earlier.1 = "SOH") := by
  decide +kernel

theorem find?_controlNames {name : String} {code : Nat} (hname : (name, code) ∈ controlNames)
    {tail : List Char} (htail : name = "SO" → tail.head? ≠ some 'H') :
    controlNames.find? (fun entry => entry.1.toList.isPrefixOf (name.toList ++ tail)) =
      some (name, code) := by
  obtain ⟨before, after, hsplit⟩ := List.append_of_mem hname
  refine List.find?_eq_some_iff_append.mpr ⟨?_, before, after, hsplit, fun other hother => ?_⟩
  · exact List.isPrefixOf_iff_prefix.mpr (List.prefix_append _ _)
  · have hpairs := controlNames_pairwise
    rw [hsplit, List.pairwise_append] at hpairs
    obtain ⟨hnone, hpair⟩ := hpairs.2.2 other hother (name, code) List.mem_cons_self
    rw [Bool.not_eq_true', Bool.eq_false_iff]
    intro hprefix
    rcases List.prefix_or_prefix_of_prefix (List.isPrefixOf_iff_prefix.mp hprefix)
      (List.prefix_append name.toList tail) with hshort | hlong
    · exact hnone hshort
    · obtain ⟨rfl, hother⟩ := hpair hlong
      rw [hother] at hprefix
      obtain ⟨rest, hrest⟩ := List.isPrefixOf_iff_prefix.mp hprefix
      refine htail rfl ?_
      have hsame : ['S', 'O'] ++ 'H' :: rest = ['S', 'O'] ++ tail := hrest
      rw [← List.append_cancel_left hsame]
      rfl

theorem escape?_named {name : String} {code : Nat} (hname : (name, code) ∈ asciiNames)
    {tail : List Char} (htail : name = "SO" → tail.head? ≠ some 'H') :
    escape? (name.toList ++ tail) = some (some (Char.ofNat code), name.toList.length) := by
  have hmem : (name, code) ∈ controlNames := hname
  have hall : ∀ entry ∈ controlNames, (entry.1.toList.head?.any fun c =>
      decide (singleEscape? c = none ∧ c ≠ '&' ∧ c ≠ '^' ∧ ¬(c = 'x' ∨ c = 'o') ∧
        ¬isDecimalDigit c = true ∧ ¬isBlank c = true)) = true := by decide +kernel
  obtain ⟨c, hc, hfirst⟩ := (Option.any_eq_true _ _).mp (hall _ hmem)
  obtain ⟨hsingle, hempty, hcontrol, hmark, hdigit, hblank⟩ := of_decide_eq_true hfirst
  obtain ⟨rest, hrest⟩ : ∃ rest, name.toList = c :: rest := List.head?_eq_some_iff.mp hc
  have hfind := find?_controlNames hmem htail
  rw [hrest, List.cons_append] at hfind ⊢
  simp only [escape?, hsingle, if_neg hempty, if_neg hcontrol, if_neg hmark, if_neg hdigit,
    if_neg hblank, hfind]
  rw [Option.map_some, ← String.length_toList, hrest]

/-! ## Literals -/

namespace LiteralItem

def EndsBefore (item : LiteralItem) (tail : List Char) : Prop :=
  match item with
  | number radix _ _ _ _ => ∀ c ∈ tail.head?, Lexeme.isDigitIn radix.base c = false
  | named name _ _ => name = "SO" → tail.head? ≠ some 'H'
  | _ => True

theorem unescape?_spell {item : LiteralItem} {tail : List Char} (hends : item.EndsBefore tail) :
    unescape? (item.spell ++ tail) = (unescape? tail).map (item.denoted ++ ·) := by
  cases item with
  | plain c hplain =>
      have hc : c ≠ '\\' := fun hc => hplain (by simp [hc])
      exact unescape?_plain hc tail
  | letter c denoted hletter => exact unescape?_escape [c] (escape?_letter hletter tail)
  | empty => exact unescape?_escape ['&'] (escape?_empty tail)
  | control c hcontrol =>
      exact unescape?_escape ['^', c] (escape?_control hcontrol tail)
  | named name code hname => exact unescape?_escape _ (escape?_named hname hends)
  | number radix digits hsome hbelow hscalar =>
      exact unescape?_escape _ (escape?_number hsome hbelow hscalar hends)
  | gap blanks hsome hblank => exact unescape?_escape _ (escape?_gap hsome hblank tail)

theorem endsBefore_nil (item : LiteralItem) : item.EndsBefore [] := by
  cases item with
  | number | named => simp [EndsBefore]
  | _ => trivial

/-- An item begins with its character or with a backslash, which no escape goes on with. -/
theorem head?_spell (item : LiteralItem) (tail : List Char) :
    (∃ c hplain, item = plain c hplain) ∨ (item.spell ++ tail).head? = some '\\' := by
  cases item with
  | plain c hplain => exact .inl ⟨c, hplain, rfl⟩
  | _ => exact .inr rfl

theorem endsBefore_of_backslash (item : LiteralItem) {tail : List Char}
    (htail : tail.head? = some '\\') : item.EndsBefore tail := by
  cases item with
  | number radix digits hsome hbelow hscalar =>
      intro c hc
      obtain rfl : '\\' = c := Option.some.inj (htail.symm.trans hc)
      cases radix <;> rfl
  | named name code hname =>
      intro _
      rw [htail]
      decide
  | _ => trivial

theorem endsBefore_spell {item next : LiteralItem} (hapart : item.Apart next) (tail : List Char) :
    item.EndsBefore (next.spell ++ tail) := by
  rcases next.head?_spell tail with ⟨c, hplain, rfl⟩ | hescape
  · cases item with
    | number radix digits hsome hbelow hscalar =>
        intro other hother
        obtain rfl : c = other := Option.some.inj hother
        rw [Bool.eq_false_iff]
        intro hdigit
        obtain ⟨digit, hless, hc⟩ := exists_digit hdigit
        exact hapart digit hless hc
    | named name code hname =>
        intro hname hc
        exact hapart hname (Option.some.inj hc)
    | _ => trivial
  · exact item.endsBefore_of_backslash hescape

/-- Decoding a literal whose items stand apart gives what they denote. -/
theorem unescape?_spell_items {items : List LiteralItem} (hapart : items.IsChain Apart) :
    unescape? (items.flatMap spell) = some (items.flatMap denoted) := by
  induction items with
  | nil =>
      rw [List.flatMap_nil, unescape?]
      rfl
  | cons item rest ih =>
      have hends : item.EndsBefore (rest.flatMap spell) := by
        cases rest with
        | nil => exact item.endsBefore_nil
        | cons next rest =>
            rw [List.flatMap_cons]
            exact endsBefore_spell (List.isChain_cons_cons.mp hapart).1 _
      rw [List.flatMap_cons, List.flatMap_cons, unescape?_spell hends, ih hapart.of_cons,
        Option.map_some]

end LiteralItem

end Text

end LosslessTree
