import LosslessTree.Access.Leaf
import LosslessTree.Proofs.Text.Escape
import LosslessTree.Proofs.Token.Extent

/-!
String literals are scanned and decoded apart. The scanner, which only knows that a backslash keeps
the next character, ends a literal where its items do unless one of them is a caret with a backslash
as its character: it takes this backslash for the beginning of an escape, and is out of step with the
items until it comes to the end of one by chance.
-/

namespace LosslessTree

open Text Lexeme

namespace Lexeme

/-- A string that ends where the text does, when it is read on from some spot. -/
def Closes (spot : StringSpot) (text : List Char) : Prop :=
  stringEnd spot text = (none, text.length)

def spotBehind (rest : List Char) : StringSpot :=
  if rest.head?.any isBlank then .gap else .escaped

def Calm (c : Char) : Prop := c ≠ '\\' ∧ c ≠ '"' ∧ isLineEnd c = false

instance : DecidablePred Calm := fun _ => instDecidableAnd

variable {c : Char} {rest front : List Char} {spot : StringSpot}

theorem closes_further {flaw : Option Flaw} {length : Nat} :
    (flaw, length + 1) = ((none, (c :: rest).length) : Option Flaw × Nat) ↔
      (flaw, length) = ((none, rest.length) : Option Flaw × Nat) := by
  simp

theorem not_closes_nil (spot : StringSpot) : ¬Closes spot [] := by
  cases spot <;> exact fun hcloses => by cases hcloses

theorem closes_calm (hc : Calm c) : Closes .plain (c :: rest) ↔ Closes .plain rest := by
  obtain ⟨hbackslash, hquote, hline⟩ := hc
  simp only [Closes, stringEnd, if_neg hbackslash, if_neg hquote, hline, Bool.false_eq_true,
    if_false]
  exact closes_further

theorem closes_calm_append (hfront : ∀ c ∈ front, Calm c) :
    Closes .plain (front ++ rest) ↔ Closes .plain rest := by
  induction front with
  | nil => exact Iff.rfl
  | cons c front ih =>
      obtain ⟨hc, hfront⟩ := List.forall_mem_cons.mp hfront
      exact (closes_calm hc).trans (ih hfront)

theorem closes_quote : Closes .plain ('"' :: rest) ↔ rest = [] := by
  simp [Closes, stringEnd]

theorem closes_backslash : Closes .plain ('\\' :: rest) ↔ Closes (spotBehind rest) rest := by
  simp only [Closes, stringEnd, if_true]
  exact closes_further

theorem not_closes_lineEnd (hline : isLineEnd c = true) : ¬Closes .plain (c :: rest) := by
  have hbackslash : c ≠ '\\' := by
    rintro rfl
    cases hline
  have hquote : c ≠ '"' := by
    rintro rfl
    cases hline
  simp [Closes, stringEnd, hbackslash, hquote, hline]

theorem closes_escaped (hline : isLineEnd c = false) :
    Closes .escaped (c :: rest) ↔ Closes .plain rest := by
  simp only [Closes, stringEnd, hline, Bool.false_eq_true, if_false]
  exact closes_further

theorem closes_gap_blank (hblank : isBlank c = true) :
    Closes .gap (c :: rest) ↔ Closes .gap rest := by
  simp only [Closes, stringEnd, if_pos hblank]
  exact closes_further

theorem closes_gap_backslash : Closes .gap ('\\' :: rest) ↔ Closes .plain rest := by
  simp only [Closes, stringEnd, if_neg (show ¬isBlank '\\' = true by decide), if_true]
  exact closes_further

theorem not_closes_gap (hblank : isBlank c = false) (hbackslash : c ≠ '\\') :
    ¬Closes .gap (c :: rest) := by
  simp [Closes, stringEnd, hblank, hbackslash]

theorem closes_gap_blanks (hfront : ∀ c ∈ front, isBlank c = true) :
    Closes .gap (front ++ rest) ↔ Closes .gap rest := by
  induction front with
  | nil => exact Iff.rfl
  | cons c front ih =>
      obtain ⟨hc, hfront⟩ := List.forall_mem_cons.mp hfront
      exact (closes_gap_blank hc).trans (ih hfront)

theorem calm_of_isBlank (hblank : isBlank c = true) (hline : isLineEnd c = false) : Calm c := by
  refine ⟨?_, ?_, hline⟩
  · rintro rfl
    exact absurd hblank (by decide)
  · rintro rfl
    exact absurd hblank (by decide)

theorem closes_blanks (hfront : ∀ c ∈ front, isBlank c = true) :
    Closes .plain (front ++ rest) ↔ (∀ c ∈ front, isLineEnd c = false) ∧ Closes .plain rest := by
  induction front with
  | nil => simp
  | cons c front ih =>
      obtain ⟨hc, hfront⟩ := List.forall_mem_cons.mp hfront
      rw [List.forall_mem_cons, and_assoc, ← ih hfront, List.cons_append]
      cases hline : isLineEnd c with
      | true => simpa using not_closes_lineEnd hline
      | false => simpa using closes_calm (calm_of_isBlank hc hline)

end Lexeme

namespace Text.LiteralItem

/-- Where the scanner stands behind an item at whose beginning it stands at some spot; nowhere if it
ends the string inside of the item or breaks off. -/
def leave? (spot : StringSpot) (item : LiteralItem) (rest : List Char) : Option StringSpot :=
  match spot, item with
  | .plain, control '\\' _ => some (spotBehind rest)
  | .plain, _ => some .plain
  | .escaped, plain _ _ => some .plain
  | .gap, plain c _ => if isBlank c then some .gap else none
  | _, letter '"' _ _ => none
  | _, letter '\\' _ _ => some (spotBehind rest)
  | _, control '\\' _ => some (spotBehind rest)
  | _, gap blanks _ _ => if blanks.any isLineEnd then none else some (spotBehind rest)
  | _, _ => some .plain

/-- Whether the scanner, from a spot on, is at the end of an item behind the last one. -/
def InStep : (spot : StringSpot) → List LiteralItem → Prop
  | spot, [] => spot = .plain
  | spot, item :: rest =>
    ∃ next, item.leave? spot (rest.flatMap spell) = some next ∧ InStep next rest

/-- A character of an escape that is no more special to the scanner than a plain one. -/
def Ordinary (c : Char) : Prop := Calm c ∧ isBlank c = false

instance : DecidablePred Ordinary := fun _ => instDecidableAnd

theorem ordinary_of_control {c : Char} (hcontrol : '@' ≤ c ∧ c ≤ '_') (hc : c ≠ '\\') :
    Ordinary c := by
  have hall : ∀ code < 96, 64 ≤ code → Char.ofNat code ≠ '\\' → Ordinary (Char.ofNat code) := by
    decide
  have hlow : 64 ≤ c.toNat := hcontrol.1
  have hhigh : c.toNat ≤ 95 := hcontrol.2
  have hcode := hall c.toNat (by omega) hlow
  rw [Char.ofNat_toNat] at hcode
  exact hcode hc

theorem ordinary_of_named {name : String} {code : Nat} (hname : (name, code) ∈ asciiNames) :
    name.toList ≠ [] ∧ ∀ c ∈ name.toList, Ordinary c := by
  have hall : ∀ entry ∈ asciiNames,
      entry.1.toList ≠ [] ∧ (entry.1.toList.all fun c => decide (Ordinary c)) = true := by
    decide
  obtain ⟨hsome, hordinary⟩ := hall _ hname
  exact ⟨hsome, fun c hc => of_decide_eq_true (List.all_eq_true.mp hordinary c hc)⟩

theorem ordinary_char (digit : Digit) : Ordinary digit.char := by
  obtain ⟨value, capital⟩ := digit
  revert value capital
  decide

theorem ordinary_of_number (radix : Radix) (digits : List Digit) :
    ∀ c ∈ radix.mark ++ digits.map Digit.char, Ordinary c := by
  intro c hc
  rcases List.mem_append.mp hc with hmark | hdigit
  · cases radix with
    | decimal => cases hmark
    | octal => rw [List.mem_singleton.mp hmark]; decide
    | hexadecimal => rw [List.mem_singleton.mp hmark]; decide
  · obtain ⟨digit, -, rfl⟩ := List.mem_map.mp hdigit
    exact ordinary_char digit

structure Passes (item : LiteralItem) (body : List Char) : Prop where
  spell : item.spell = '\\' :: body
  ne_nil : body ≠ []
  ordinary : ∀ c ∈ body, Ordinary c
  leave? (spot : StringSpot) (rest : List Char) : item.leave? spot rest = some .plain

theorem passes_letter {c denoted : Char} (hletter : (c, denoted) ∈ letterEscapes)
    (hquote : c ≠ '"') (hbackslash : c ≠ '\\') : (letter c denoted hletter).Passes [c] where
  spell := rfl
  ne_nil := List.cons_ne_nil _ _
  ordinary := by
    have hall : ∀ entry ∈ letterEscapes, entry.1 ≠ '"' → entry.1 ≠ '\\' → Ordinary entry.1 := by
      decide
    exact List.forall_mem_singleton.mpr (hall _ hletter hquote hbackslash)
  leave? spot rest := by
    cases spot <;> simp [leave?, hquote, hbackslash]

theorem passes_control {c : Char} (hcontrol : '@' ≤ c ∧ c ≤ '_') (hbackslash : c ≠ '\\') :
    (control c hcontrol).Passes ['^', c] where
  spell := rfl
  ne_nil := List.cons_ne_nil _ _
  ordinary := List.forall_mem_cons.mpr
    ⟨by decide, List.forall_mem_singleton.mpr (ordinary_of_control hcontrol hbackslash)⟩
  leave? spot rest := by
    cases spot <;> simp [leave?, hbackslash]

theorem passes_empty : empty.Passes ['&'] where
  spell := rfl
  ne_nil := List.cons_ne_nil _ _
  ordinary := List.forall_mem_singleton.mpr (by decide)
  leave? spot rest := by
    cases spot <;> rfl

theorem passes_named {name : String} {code : Nat} (hname : (name, code) ∈ asciiNames) :
    (named name code hname).Passes name.toList where
  spell := rfl
  ne_nil := (ordinary_of_named hname).1
  ordinary := (ordinary_of_named hname).2
  leave? spot rest := by
    cases spot <;> rfl

theorem passes_number {radix : Radix} {digits : List Digit} (hsome : digits ≠ [])
    (hbelow : ∀ digit ∈ digits, digit.value.val < radix.base)
    (hscalar : (radix.number digits).isValidChar) :
    (number radix digits hsome hbelow hscalar).Passes (radix.mark ++ digits.map Digit.char) where
  spell := rfl
  ne_nil := by simp [hsome]
  ordinary := ordinary_of_number radix digits
  leave? spot rest := by
    cases spot <;> rfl

variable {item : LiteralItem} {spot : StringSpot} {body rest : List Char}

/-- Behind a backslash that ends a gap or is escaped, the rest of an escape is read as if it were
plain. -/
theorem closes_out_of_step (hspot : spot ≠ .plain) :
    Closes spot ('\\' :: rest) ↔ Closes .plain rest := by
  cases spot with
  | plain => exact absurd rfl hspot
  | escaped => exact closes_escaped rfl
  | gap => exact closes_gap_backslash

theorem Passes.closes_iff (hpasses : item.Passes body) :
    Closes spot (item.spell ++ rest) ↔ Closes .plain rest := by
  have hcalm : ∀ c ∈ body, Calm c := fun c hc => (hpasses.ordinary c hc).1
  rw [hpasses.spell, List.cons_append]
  by_cases hspot : spot = .plain
  · obtain ⟨c, more, rfl⟩ := List.exists_cons_of_ne_nil hpasses.ne_nil
    obtain ⟨hc, hblank⟩ := hpasses.ordinary c List.mem_cons_self
    have hbehind : spotBehind (c :: more ++ rest) = .escaped := by simp [spotBehind, hblank]
    rw [hspot, closes_backslash, hbehind, List.cons_append, closes_escaped hc.2.2]
    exact closes_calm_append fun other hother => hcalm other (List.mem_cons_of_mem _ hother)
  · rw [closes_out_of_step hspot]
    exact closes_calm_append hcalm

def Fits (spot : StringSpot) (text : List Char) : Prop :=
  spot = .escaped → text.head?.any isBlank = false

theorem fits_spotBehind (rest : List Char) : Fits (spotBehind rest) rest := by
  unfold Fits spotBehind
  split <;> simp_all

theorem closes_of_leave? {text : List Char} {next : StringSpot}
    (hleave : item.leave? spot rest = some next) (hcloses : Closes spot text ↔ Closes next rest) :
    Closes spot text ↔ ∃ next, item.leave? spot rest = some next ∧ Closes next rest := by
  rw [hcloses]
  constructor
  · exact fun hrest => ⟨next, hleave, hrest⟩
  · rintro ⟨other, hother, hrest⟩
    cases hleave.symm.trans hother
    exact hrest

theorem closes_plain {c : Char} {hplain : c ∉ ['"', '\\', '\r', '\n']}
    (hfits : Fits spot (c :: rest)) :
    Closes spot (c :: rest) ↔
      ∃ next, (plain c hplain).leave? spot rest = some next ∧ Closes next rest := by
  have hcalm : Calm c := by
    simp only [List.mem_cons, List.not_mem_nil, or_false, not_or] at hplain
    obtain ⟨hquote, hbackslash, hreturn, hfeed⟩ := hplain
    exact ⟨hbackslash, hquote, by simp [isLineEnd, hreturn, hfeed]⟩
  cases spot with
  | plain => exact closes_of_leave? rfl (closes_calm hcalm)
  | escaped => exact closes_of_leave? rfl (closes_escaped hcalm.2.2)
  | gap =>
      cases hblank : isBlank c with
      | true => exact closes_of_leave? (if_pos hblank) (closes_gap_blank hblank)
      | false =>
          have hnone : (plain c hplain).leave? .gap rest = none :=
            if_neg (ne_true_of_eq_false hblank)
          simpa [hnone] using not_closes_gap hblank hcalm.1

theorem closes_letter_quote {denoted : Char} {hletter : ('"', denoted) ∈ letterEscapes}
    (hrest : rest ≠ []) :
    Closes spot ('\\' :: '"' :: rest) ↔
      ∃ next, (letter '"' denoted hletter).leave? spot rest = some next ∧ Closes next rest := by
  by_cases hspot : spot = .plain
  · subst hspot
    exact closes_of_leave? rfl (closes_backslash.trans (closes_escaped rfl))
  · have hnone : (letter '"' denoted hletter).leave? spot rest = none := by
      cases spot with
      | plain => exact absurd rfl hspot
      | _ => rfl
    rw [closes_out_of_step hspot, closes_quote, hnone]
    simpa using hrest

theorem closes_letter_backslash {denoted : Char} {hletter : ('\\', denoted) ∈ letterEscapes} :
    Closes spot ('\\' :: '\\' :: rest) ↔
      ∃ next, (letter '\\' denoted hletter).leave? spot rest = some next ∧ Closes next rest := by
  by_cases hspot : spot = .plain
  · subst hspot
    exact closes_of_leave? rfl (closes_backslash.trans (closes_escaped rfl))
  · have hleave : (letter '\\' denoted hletter).leave? spot rest = some (spotBehind rest) := by
      cases spot with
      | plain => exact absurd rfl hspot
      | _ => rfl
    exact closes_of_leave? hleave ((closes_out_of_step hspot).trans closes_backslash)

theorem closes_control_backslash {hcontrol : '@' ≤ '\\' ∧ '\\' ≤ '_'} :
    Closes spot ('\\' :: '^' :: '\\' :: rest) ↔
      ∃ next, (control '\\' hcontrol).leave? spot rest = some next ∧ Closes next rest := by
  have hleave : (control '\\' hcontrol).leave? spot rest = some (spotBehind rest) := by
    cases spot <;> rfl
  have hcaret : Closes spot ('\\' :: '^' :: '\\' :: rest) ↔ Closes .plain ('\\' :: rest) := by
    by_cases hspot : spot = .plain
    · have hbehind : spotBehind ('^' :: '\\' :: rest) = .escaped := rfl
      rw [hspot, closes_backslash, hbehind, closes_escaped rfl]
    · rw [closes_out_of_step hspot, closes_calm (by decide)]
  exact closes_of_leave? hleave (hcaret.trans closes_backslash)

theorem closes_gap {blanks : List Char} {hsome : blanks ≠ []}
    {hblank : ∀ c ∈ blanks, isBlank c = true} :
    Closes spot ('\\' :: (blanks ++ '\\' :: rest)) ↔
      ∃ next, (gap blanks hsome hblank).leave? spot rest = some next ∧ Closes next rest := by
  by_cases hspot : spot = .plain
  · obtain ⟨c, more, rfl⟩ := List.exists_cons_of_ne_nil hsome
    have hbehind : spotBehind (c :: more ++ '\\' :: rest) = .gap := by
      simp [spotBehind, hblank c List.mem_cons_self]
    refine closes_of_leave? (show (gap (c :: more) hsome hblank).leave? spot rest = some .plain by
      rw [hspot]; rfl) ?_
    rw [hspot, closes_backslash, hbehind, closes_gap_blanks hblank, closes_gap_backslash]
  · have hleave : (gap blanks hsome hblank).leave? spot rest =
        if blanks.any isLineEnd then none else some (spotBehind rest) := by
      cases spot with
      | plain => exact absurd rfl hspot
      | _ => rfl
    rw [closes_out_of_step hspot, closes_blanks hblank, closes_backslash, hleave]
    cases hline : blanks.any isLineEnd with
    | true => simpa using fun hnone => absurd (List.any_eq_true.mp hline) (by simpa using hnone)
    | false =>
        have hsame : ∀ c ∈ blanks, isLineEnd c = false := by simpa using hline
        simpa using fun _ => hsame

/-- Whether a literal is closed where it ends is seen behind each item from where the scanner leaves
it. -/
theorem closes_spell (hrest : rest ≠ []) (hfits : Fits spot (item.spell ++ rest)) :
    Closes spot (item.spell ++ rest) ↔
      ∃ next, item.leave? spot rest = some next ∧ Closes next rest := by
  have hpasses {body : List Char} (hpasses : item.Passes body) :
      Closes spot (item.spell ++ rest) ↔
        ∃ next, item.leave? spot rest = some next ∧ Closes next rest := by
    simpa [hpasses.leave?] using hpasses.closes_iff
  cases item with
  | plain c hplain => exact closes_plain hfits
  | letter c denoted hletter =>
      by_cases hquote : c = '"'
      · subst hquote
        exact closes_letter_quote hrest
      · by_cases hbackslash : c = '\\'
        · subst hbackslash
          exact closes_letter_backslash
        · exact hpasses (passes_letter hletter hquote hbackslash)
  | empty => exact hpasses passes_empty
  | control c hcontrol =>
      by_cases hbackslash : c = '\\'
      · subst hbackslash
        exact closes_control_backslash
      · exact hpasses (passes_control hcontrol hbackslash)
  | named name code hname => exact hpasses (passes_named hname)
  | number radix digits hsome hbelow hscalar =>
      exact hpasses (passes_number hsome hbelow hscalar)
  | gap blanks hsome hblank =>
      have hspell : (gap blanks hsome hblank).spell ++ rest =
          '\\' :: (blanks ++ '\\' :: rest) := by simp [spell]
      rw [hspell]
      exact closes_gap

theorem fits_leave? {next : StringSpot} (hleave : item.leave? spot rest = some next) :
    Fits next rest := by
  have hnext : next = .plain ∨ next = .gap ∨ next = spotBehind rest := by
    unfold leave? at hleave
    split at hleave <;> grind
  rcases hnext with rfl | rfl | rfl
  · exact StringSpot.noConfusion
  · exact StringSpot.noConfusion
  · exact fits_spotBehind rest

theorem leave?_quote (spot : StringSpot) (item : LiteralItem) (front : List Char) :
    item.leave? spot (front ++ ['"']) = item.leave? spot front := by
  have hbehind : spotBehind (front ++ ['"']) = spotBehind front := by
    cases front <;> rfl
  simp only [leave?, hbehind]

/-- A literal is closed where it ends if and only if the scanner is in step with its items there. -/
theorem closes_iff_inStep {items : List LiteralItem}
    (hfits : Fits spot (items.flatMap spell ++ ['"'])) :
    Closes spot (items.flatMap spell ++ ['"']) ↔ InStep spot items := by
  induction items generalizing spot with
  | nil =>
      rw [List.flatMap_nil, List.nil_append, InStep]
      cases spot with
      | plain => simp [closes_quote]
      | escaped => simp [closes_escaped (show isLineEnd '"' = false from rfl), not_closes_nil]
      | gap => simp [not_closes_gap (show isBlank '"' = false from rfl)]
  | cons item items ih =>
      rw [List.flatMap_cons, List.append_assoc] at hfits ⊢
      rw [closes_spell (by simp) hfits, InStep, leave?_quote]
      refine exists_congr fun next => and_congr_right fun hleave => ih ?_
      rw [← leave?_quote] at hleave
      exact fits_leave? hleave

/-- Without a caret that has a backslash as its character, the scanner is never out of step. -/
theorem inStep_of_no_caret {items : List LiteralItem}
    (hitems : ∀ item ∈ items, item.spell ≠ ['\\', '^', '\\']) : InStep .plain items := by
  induction items with
  | nil => rfl
  | cons item items ih =>
      obtain ⟨hitem, hrest⟩ := List.forall_mem_cons.mp hitems
      refine ⟨.plain, ?_, ih hrest⟩
      cases item with
      | control c hcontrol =>
          have hc : c ≠ '\\' := by
            rintro rfl
            exact hitem rfl
          exact (passes_control hcontrol hc).leave? _ _
      | _ => rfl

theorem not_inStep_concat {hcontrol : '@' ≤ '\\' ∧ '\\' ≤ '_'} (items : List LiteralItem) :
    ¬InStep spot (items ++ [control '\\' hcontrol]) := by
  induction items generalizing spot with
  | nil =>
      have hleave : (control '\\' hcontrol).leave? spot [] = some .escaped := by
        cases spot <;> rfl
      rintro ⟨next, hnext, hend⟩
      rw [List.flatMap_nil, hleave] at hnext
      rw [← Option.some.inj hnext] at hend
      cases hend
  | cons item items ih =>
      rintro ⟨next, -, hrest⟩
      exact ih hrest

end Text.LiteralItem

namespace Token

def quote (chars : List Char) : String := String.ofList ('"' :: (chars ++ ['"']))

theorem first_quote (rest : List Char) : first '"' rest = string rest := by
  have hblank : isBlank '"' = false := by decide
  unfold first
  rw [if_neg (by simp [hblank])]
  rfl

theorem ofText_quote_iff (chars : List Char) :
    ofText (quote chars) = [covering .string 0 (quote chars), eof (quote chars).utf8ByteSize] ↔
      Closes .plain (chars ++ ['"']) := by
  generalize hbody : chars ++ ['"'] = body
  have hquote : quote chars = String.ofList ('"' :: body) := by rw [quote, hbody]
  rw [ofText, hquote, String.toList_ofList, scan, first_quote]
  constructor
  · intro hscan
    obtain ⟨htoken, -⟩ := List.cons.inj hscan
    have hkind : (string body).kind = .string := congrArg Token.kind htoken
    have htext := congrArg (fun token => token.text.toList) htoken
    simp only [text_ofLexeme, covering, String.toList_ofList] at htext
    have hlength := congrArg List.length (List.cons.inj htext).2
    have hle := string_le body
    rw [List.length_take] at hlength
    have hmore : (string body).more = body.length := by omega
    unfold string at hkind hmore
    split at hkind
    · next length hend =>
        rw [hend] at hmore
        rw [Closes, hend]
        exact congrArg _ hmore
    · cases hkind
  · intro hcloses
    have hstring : string body = ofKind .string body.length := by
      rw [string, hcloses]
    have hmore : (ofKind .string body.length).more = body.length := rfl
    rw [hstring, hmore, List.take_length, List.drop_length, scan]
    refine congrArg₂ List.cons rfl (congrArg (fun stop => [eof stop]) ?_)
    exact Nat.zero_add _

end Token

namespace Node

theorem between?_around (mark : Char) (chars : List Char) :
    between? [mark] [mark] (mark :: (chars ++ [mark])) = some chars := by
  have hfront : [mark].isPrefixOf (mark :: (chars ++ [mark])) = true := by simp
  have hback : [mark].isSuffixOf (chars ++ [mark]) = true :=
    List.isSuffixOf_iff_suffix.mpr (List.suffix_append chars [mark])
  have hlength : (chars ++ [mark]).length + 1 - 1 - 1 = chars.length := by simp
  simp only [between?, hfront, List.length_cons, List.length_nil, Nat.zero_add,
    List.drop_succ_cons, List.drop_zero, hback, Bool.and_self, if_true, hlength, List.take_left]

theorem literal?_of_quote {node : Node} {chars : List Char}
    (htext : node.firstText? = some (Token.quote chars)) :
    node.literal? = (unescape? chars).map String.ofList := by
  have hbetween : between? ['"'] ['"'] (Token.quote chars).toList = some chars := by
    rw [Token.quote, String.toList_ofList, between?_around]
  rw [literal?, htext, Option.bind_some, hbetween]
  rfl

end Node

open Text.LiteralItem

/-- String literals go through the scanner and the decoder unchanged, apart from what a caret with a
backslash does to the scanner: a literal is one token if and only if the scanner is in step with its
items at the end, which it always is where no caret has a backslash as its character, and never
where the last item is such a caret. The value of the token is what the items denote. -/
theorem literal_quote {items : List LiteralItem} (hapart : items.IsChain Apart) :
    (Token.ofText (Token.quote (items.flatMap spell)) =
        [.covering .string 0 (Token.quote (items.flatMap spell)),
          .eof (Token.quote (items.flatMap spell)).utf8ByteSize] ↔ InStep .plain items) ∧
      ((∀ item ∈ items, item.spell ≠ ['\\', '^', '\\']) → InStep .plain items) ∧
      (∀ front hcontrol, items = front ++ [control '\\' hcontrol] → ¬InStep .plain items) ∧
      ∀ node : Node, node.firstText? = some (Token.quote (items.flatMap spell)) →
        node.literal? = some (String.ofList (items.flatMap denoted)) := by
  refine ⟨?_, inStep_of_no_caret, fun front hcontrol hitems => ?_, fun node htext => ?_⟩
  · rw [Token.ofText_quote_iff]
    exact closes_iff_inStep StringSpot.noConfusion
  · rw [hitems]
    exact not_inStep_concat front
  · rw [Node.literal?_of_quote htext, unescape?_spell_items hapart, Option.map_some]

/-- A name that an escape without meaning parts from a letter, a number in front of a letter that is
no digit, and a gap over two lines. -/
theorem literal_quote_of_escapes : ∃ items : List LiteralItem,
    items.flatMap spell = "\\SO\\&H\\x4Fg\\ \n \\\\\"é".toList ∧ items.IsChain Apart ∧
      Token.ofText (Token.quote (items.flatMap spell)) =
        [.covering .string 0 (Token.quote (items.flatMap spell)),
          .eof (Token.quote (items.flatMap spell)).utf8ByteSize] ∧
      (Node.ofToken (.covering .string 0 (Token.quote (items.flatMap spell)))).literal? =
        some "\x0eHOg\"é" := by
  let items : List LiteralItem := [
    named "SO" 14 (by decide), empty, plain 'H' (by decide),
    number .hexadecimal [⟨4, false⟩, ⟨15, true⟩] (by decide) (by decide) (by decide),
    plain 'g' (by decide), gap [' ', '\n', ' '] (by decide) (List.all_eq_true.mp rfl),
    letter '"' '"' (by decide), plain 'é' (by decide)]
  have hdigit : ∀ value : Fin 16, ∀ capital, 'g' ≠ Digit.char ⟨value, capital⟩ := by
    decide +kernel
  have hapart : items.IsChain Apart := by
    simp only [items, List.isChain_cons_cons, Apart, List.isChain_singleton, true_and, and_true]
    exact fun digit _ => hdigit digit.value digit.capital
  obtain ⟨htokens, hstep, -, hvalue⟩ := literal_quote hapart
  refine ⟨items, rfl, hapart, htokens.mpr (hstep (by decide)), ?_⟩
  rw [hvalue _ rfl]
  rfl

/-- A literal that is not read as one string, though each of its items is well-formed: the one item
denotes the character with the code 28, and the scanner misses the closing quote. -/
theorem exists_literal_misread : ∃ items : List LiteralItem, items.IsChain Apart ∧
    items.flatMap denoted = ['\x1c'] ∧
    Token.ofText (Token.quote (items.flatMap spell)) =
      [⟨.flawed, ⟨0, 5, by decide⟩, "\"\\^\\\"", some "End of file in string literal"⟩, .eof 5] :=
  ⟨[control '\\' (by decide)], .singleton _, rfl, by decide +kernel⟩

end LosslessTree
