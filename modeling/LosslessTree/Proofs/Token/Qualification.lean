import LosslessTree.Access.Leaf
import LosslessTree.Proofs.Text.Decoding
import LosslessTree.Proofs.Token.Classes
import LosslessTree.Proofs.Token.Extent

/-!
Qualified names. Constructor names with dots between them may stand in front of a last part, which
decides what the whole is: a constructor, a variable or an operator. A reserved word is none of
these, so it stays apart, and so does the dot in front of it.
-/

namespace LosslessTree

namespace Text

def IsConstructorName (name : List Char) : Prop :=
  ∃ c rest, name = c :: rest ∧ isUppercase c = true ∧ ∀ c ∈ rest, isNameChar c = true

def IsVariableName (name : List Char) : Prop :=
  ∃ c rest, name = c :: rest ∧ isVariableStart c = true ∧ ∀ c ∈ rest, isNameChar c = true

/-- What may stand behind the last dot of a qualified name, by the kind of the whole. -/
inductive LastPart : TokenKind → List Char → Prop where
  | constructorName {name : List Char} (hname : IsConstructorName name) :
      LastPart .qualifiedConId name
  | variableName {name : List Char} (hname : IsVariableName name)
      (hfree : TokenKind.isReservedWord name = false) : LastPart .qualifiedVarId name
  | constructorOperator {rest : List Char} (hrest : ∀ c ∈ rest, isSymbol c = true) :
      LastPart .conSym (':' :: rest)
  | operator {c : Char} {rest : List Char} (hcolon : c ≠ ':')
      (hsymbols : ∀ other ∈ c :: rest, isSymbol other = true) : LastPart .varSym (c :: rest)

def dotted (names : List (List Char)) : List Char := ['.'].intercalate names

/-- A text has a qualifier if it is a name behind constructor names, with dots between them. -/
def HasQualifier (text : List Char) : Prop :=
  ∃ qualifier last, qualifier ≠ [] ∧ (∀ name ∈ qualifier, IsConstructorName name) ∧ last ≠ [] ∧
    text = dotted (qualifier ++ [last])

/-! ## Names and dots -/

theorem dotted_cons (name : List Char) (names : List (List Char)) :
    dotted (name :: names) = name ++ names.flatMap ('.' :: ·) := by
  induction names generalizing name with
  | nil => simp [dotted]
  | cons next names ih =>
      rw [List.flatMap_cons, List.cons_append, ← ih next]
      simp [dotted]

theorem dot_mem_dotted {qualifier : List (List Char)} (hsome : qualifier ≠ []) (last : List Char) :
    '.' ∈ dotted (qualifier ++ [last]) := by
  cases qualifier with
  | nil => exact absurd rfl hsome
  | cons name names =>
      rw [List.cons_append, dotted_cons]
      simp

theorem HasQualifier.exists_capital {text : List Char} (hqualifier : HasQualifier text) :
    ∃ c rest, text = c :: rest ∧ isUppercase c = true := by
  obtain ⟨qualifier, last, hsome, hnames, -, rfl⟩ := hqualifier
  cases qualifier with
  | nil => exact absurd rfl hsome
  | cons name names =>
      obtain ⟨⟨c, rest, rfl, hupper, -⟩, -⟩ := List.forall_mem_cons.mp hnames
      exact ⟨c, _, dotted_cons _ _, hupper⟩

theorem IsConstructorName.isNameChar {name : List Char} (hname : IsConstructorName name) :
    ∀ c ∈ name, isNameChar c = true := by
  obtain ⟨c, rest, rfl, hupper, hrest⟩ := hname
  exact List.forall_mem_cons.mpr ⟨isNameChar_of_isUppercase hupper, hrest⟩

/-- A constructor name by itself has no qualifier, since no name has a dot in it. -/
theorem IsConstructorName.not_hasQualifier {name : List Char} (hname : IsConstructorName name) :
    ¬HasQualifier name := by
  rintro ⟨qualifier, last, hsome, -, -, rfl⟩
  have hdot := hname.isNameChar '.' (dot_mem_dotted hsome last)
  exact absurd hdot (by decide)

theorem IsVariableName.isNameChar {name : List Char} (hname : IsVariableName name) :
    ∀ c ∈ name, isNameChar c = true := by
  obtain ⟨c, rest, rfl, hstart, hrest⟩ := hname
  exact List.forall_mem_cons.mpr ⟨isNameChar_of_isVariableStart hstart, hrest⟩

theorem LastPart.ne_nil {kind : TokenKind} {last : List Char} (hlast : LastPart kind last) :
    last ≠ [] := by
  cases hlast with
  | constructorName hname =>
      obtain ⟨c, rest, rfl, -⟩ := hname
      exact List.cons_ne_nil c rest
  | variableName hname _ =>
      obtain ⟨c, rest, rfl, -⟩ := hname
      exact List.cons_ne_nil c rest
  | constructorOperator => exact List.cons_ne_nil _ _
  | operator => exact List.cons_ne_nil _ _

theorem isVariableName_iff {name : List Char} : IsVariableName name ↔
    name.head?.any isVariableStart = true ∧ name.tail.all isNameChar = true := by
  cases name <;> simp [IsVariableName]

theorem isVariableName_of_isReservedWord {word : List Char}
    (hreserved : TokenKind.isReservedWord word = true) : IsVariableName word := by
  have hall : ∀ entry ∈ TokenKind.reservedWords,
      entry.1.toList.head?.any isVariableStart = true ∧
        entry.1.toList.tail.all isNameChar = true := by decide +kernel
  obtain ⟨kind, hlookup⟩ := Option.isSome_iff_exists.mp hreserved
  have hword := hall _ (Lexeme.mem_of_lookup hlookup)
  rw [String.toList_ofList] at hword
  exact isVariableName_iff.mpr hword

theorem runLength_append {test : Char → Bool} {front back : List Char}
    (hfront : ∀ c ∈ front, test c = true) (hback : ∀ c ∈ back.head?, test c = false) :
    runLength test (front ++ back) = front.length := by
  induction front with
  | nil =>
      cases back with
      | nil => rfl
      | cons c back => simp [runLength, hback c rfl]
  | cons c front ih =>
      obtain ⟨hc, hfront⟩ := List.forall_mem_cons.mp hfront
      simpa [runLength, hc] using ih hfront

theorem runLength_all {test : Char → Bool} {front : List Char}
    (hfront : ∀ c ∈ front, test c = true) : runLength test front = front.length := by
  rw [runLength, List.takeWhile_eq_self_iff.mpr hfront]

theorem take_runLength_cons {test : Char → Bool} {c : Char} (hc : test c = true)
    (rest : List Char) :
    (c :: rest).take (runLength test (c :: rest)) = c :: rest.takeWhile test := by
  rw [take_runLength, List.takeWhile_cons_of_pos hc]

theorem head?_parts (parts : List (List Char)) :
    ∀ c ∈ (parts.flatMap ('.' :: ·)).head?, isNameChar c = false := by
  cases parts with
  | nil => simp
  | cons part parts =>
      intro c hc
      obtain rfl := Option.some.inj hc
      decide

end Text

namespace Lexeme

open Text

theorem not_isUppercase_of_isSymbol {c : Char} (hsymbol : isSymbol c = true) :
    isUppercase c = false := by
  have hall : ['!', '#', '$', '%', '&', '*', '+', '.', '/', '<', '=', '>', '?', '@', '\\', '^',
      '|', '-', '~', ':'].all (!isUppercase ·) = true := by decide +kernel
  simpa using List.all_eq_true.mp hall c (List.contains_iff_mem.mp hsymbol)

theorem not_isDecimalDigit_of_isUppercase {c : Char} (hupper : isUppercase c = true) :
    isDecimalDigit c = false := by
  by_contra hdigit
  have hall : ∀ code ∈ List.range' 48 10, isUppercase (Char.ofNat code) = false := by decide
  have hcode : c.toNat ∈ List.range' 48 10 := by
    obtain ⟨hlow, hhigh⟩ := isDecimalDigit_iff.mp (Bool.not_eq_false _ ▸ hdigit)
    rw [List.mem_range'_1]
    omega
  have hnone := hall _ hcode
  rw [Char.ofNat_toNat, hupper] at hnone
  cases hnone

theorem first_capital {c : Char} (hupper : isUppercase c = true) (rest : List Char) :
    first c rest = constructorName rest := by
  have hseparator : isSeparator c = false := by
    apply Bool.eq_false_iff.mpr
    intro hseparator
    obtain ⟨-, hnone, -⟩ := classes_of_separator hseparator
    cases hupper.symm.trans hnone
  simp only [isSeparator, Bool.or_eq_false_iff, beq_eq_false_iff_ne] at hseparator
  obtain ⟨hblank, hbrace⟩ := hseparator
  have hdash : c ≠ '-' := by
    rintro rfl
    exact absurd hupper (by decide)
  have hnone : commentary? c rest = none := by
    simp [commentary?, hbrace]
  simp [first, hblank, hnone, not_isDecimalDigit_of_isUppercase hupper, hupper]

/-! ## Reading a qualified name -/

variable {kind : TokenKind} {name back : List Char} {qualifier : List (List Char)}
  {last : List Char}

theorem qualification_name (hname : IsConstructorName name)
    (hback : ∀ c ∈ back.head?, isNameChar c = false) :
    qualification kind ('.' :: (name ++ back)) =
      ((qualification .qualifiedConId back).1,
        1 + name.length + (qualification .qualifiedConId back).2) := by
  have hrun := runLength_append hname.isNameChar hback
  obtain ⟨c, rest, rfl, hupper, -⟩ := hname
  rw [List.cons_append] at hrun ⊢
  rw [qualification_constructor hupper, hrun, ← List.cons_append, List.drop_left]

theorem qualification_symbols {c : Char} {rest : List Char}
    (hsymbols : ∀ other ∈ c :: rest, isSymbol other = true) :
    qualification kind ('.' :: c :: rest) =
      (if c = ':' then .conSym else .varSym, (c :: rest).length + 1) := by
  have hc := hsymbols c List.mem_cons_self
  have hstart : isVariableStart c = false := by
    apply Bool.eq_false_iff.mpr
    intro hstart
    cases hc.symm.trans (not_symbol_of_variableStart hstart)
  rw [qualification_operator (not_isUppercase_of_isSymbol hc) hstart, if_pos hc,
    runLength_all hsymbols, Nat.add_comm]

/-- All of a qualified name is taken, if its last part is not reserved. -/
theorem qualification_parts (hqualifier : ∀ name ∈ qualifier, IsConstructorName name)
    {whole : TokenKind} (hlast : LastPart whole last) :
    qualification kind ((qualifier ++ [last]).flatMap ('.' :: ·)) =
      (whole, ((qualifier ++ [last]).flatMap ('.' :: ·)).length) := by
  induction qualifier generalizing kind with
  | nil =>
      have hnil : ∀ c ∈ ([] : List Char).head?, isNameChar c = false := by simp
      rw [List.nil_append, List.flatMap_singleton]
      cases hlast with
      | constructorName hname =>
          have htaken : qualification kind ('.' :: (last ++ [])) = _ :=
            qualification_name hname hnil
          rw [List.append_nil] at htaken
          rw [htaken, qualification, List.length_cons, Nat.add_zero, Nat.add_comm]
          intro _ _ heq
          cases heq
      | variableName hname hfree =>
          have hrun := runLength_all hname.isNameChar
          obtain ⟨c, rest, rfl, hstart, -⟩ := hname
          rw [qualification_variable (not_isUppercase_of_isVariableStart hstart) hstart, hrun,
            List.take_length, hfree, List.length_cons, Nat.add_comm]
          rfl
      | constructorOperator hrest =>
          exact qualification_symbols (List.forall_mem_cons.mpr ⟨by decide, hrest⟩)
      | operator hcolon hsymbols =>
          rw [qualification_symbols hsymbols, if_neg hcolon]
          rfl
  | cons name names ih =>
      obtain ⟨hname, hnames⟩ := List.forall_mem_cons.mp hqualifier
      rw [List.cons_append, List.flatMap_cons, List.cons_append,
        qualification_name hname (head?_parts _), ih hnames]
      simp only [List.length_cons, List.length_append]
      rw [Nat.add_comm 1, Nat.add_right_comm]

/-- In front of a reserved word the qualifier ends, and so does the name. -/
theorem qualification_reserved (hqualifier : ∀ name ∈ qualifier, IsConstructorName name)
    (hreserved : TokenKind.isReservedWord last = true) :
    qualification kind ((qualifier ++ [last]).flatMap ('.' :: ·)) =
      (if qualifier = [] then kind else .qualifiedConId,
        (qualifier.flatMap ('.' :: ·)).length) := by
  induction qualifier generalizing kind with
  | nil =>
      have hname := isVariableName_of_isReservedWord hreserved
      have hrun := runLength_all hname.isNameChar
      obtain ⟨c, rest, rfl, hstart, -⟩ := hname
      rw [List.nil_append, List.flatMap_singleton,
        qualification_variable (not_isUppercase_of_isVariableStart hstart) hstart, hrun,
        List.take_length, if_pos hreserved]
      rfl
  | cons name names ih =>
      obtain ⟨hname, hnames⟩ := List.forall_mem_cons.mp hqualifier
      rw [List.cons_append, List.flatMap_cons, List.cons_append,
        qualification_name hname (head?_parts _), ih hnames, if_neg (List.cons_ne_nil name names)]
      simp only [ite_self, List.flatMap_cons, List.length_cons, List.length_append]
      rw [Nat.add_comm 1]

theorem constructorName_append {rest : List Char} (hrest : ∀ c ∈ rest, isNameChar c = true)
    (parts : List (List Char)) :
    constructorName (rest ++ parts.flatMap ('.' :: ·)) =
      ofKind (qualification .conId (parts.flatMap ('.' :: ·))).1
        (rest.length + (qualification .conId (parts.flatMap ('.' :: ·))).2) := by
  unfold constructorName
  dsimp only
  rw [runLength_append hrest (head?_parts parts), List.drop_left]

/-! ## Qualified names read -/

/-- What is taken behind a constructor name consists of names behind dots, of which the last one
tells the kind. -/
theorem exists_parts (kind : TokenKind) (text : List Char) :
    ∃ parts, text.take (qualification kind text).2 = parts.flatMap ('.' :: ·) ∧
      (parts = [] ∧ (qualification kind text).1 = kind ∨
        ∃ qualifier last, parts = qualifier ++ [last] ∧
          (∀ name ∈ qualifier, IsConstructorName name) ∧
          LastPart (qualification kind text).1 last) := by
  fun_induction qualification kind text with
  | case1 kind first rest name hupper whole more heq ih =>
      rw [heq] at ih
      obtain ⟨parts, htaken, hparts⟩ := ih
      have hword := take_runLength_cons (isNameChar_of_isUppercase hupper) rest
      have hname : IsConstructorName (first :: rest.takeWhile isNameChar) :=
        ⟨first, _, rfl, hupper, fun c hc => List.mem_takeWhile_imp hc⟩
      refine ⟨(first :: rest.takeWhile isNameChar) :: parts, ?_, .inr ?_⟩
      · dsimp only at htaken ⊢
        rw [Nat.add_assoc, Nat.add_comm, List.take_succ_cons, List.take_add, hword, htaken]
        rfl
      · rcases hparts with ⟨rfl, rfl⟩ | ⟨qualifier, last, rfl, hqualifier, hlast⟩
        · refine ⟨[], _, rfl, ?_, .constructorName hname⟩
          exact fun _ hnone => absurd hnone List.not_mem_nil
        · exact ⟨_ :: qualifier, last, rfl, List.forall_mem_cons.mpr ⟨hname, hqualifier⟩, hlast⟩
  | case2 kind first rest name hupper hstart hreserved => exact ⟨[], rfl, .inl ⟨rfl, rfl⟩⟩
  | case3 kind first rest name hupper hstart hfree =>
      have hword := take_runLength_cons (isNameChar_of_isVariableStart hstart) rest
      have hname : IsVariableName (first :: rest.takeWhile isNameChar) :=
        ⟨first, _, rfl, hstart, fun c hc => List.mem_takeWhile_imp hc⟩
      rw [hword] at hfree
      refine ⟨[first :: rest.takeWhile isNameChar], ?_, .inr ⟨[], _, rfl, ?_, ?_⟩⟩
      · dsimp only
        rw [Nat.add_comm, List.take_succ_cons, hword, List.flatMap_singleton]
      · exact fun _ hnone => absurd hnone List.not_mem_nil
      · exact .variableName hname (Bool.eq_false_iff.mpr hfree)
  | case4 kind first rest hupper hstart hsymbol =>
      have hword := take_runLength_cons hsymbol rest
      have hrest : ∀ c ∈ rest.takeWhile isSymbol, isSymbol c = true :=
        fun c hc => List.mem_takeWhile_imp hc
      refine ⟨[first :: rest.takeWhile isSymbol], ?_, .inr ⟨[], _, rfl, ?_, ?_⟩⟩
      · dsimp only
        rw [Nat.add_comm, List.take_succ_cons, hword, List.flatMap_singleton]
      · exact fun _ hnone => absurd hnone List.not_mem_nil
      · dsimp only
        split
        · next hcolon =>
            subst hcolon
            exact .constructorOperator hrest
        · next hcolon => exact .operator hcolon (List.forall_mem_cons.mpr ⟨hsymbol, hrest⟩)
  | case5 kind first rest hupper hstart hsymbol => exact ⟨[], rfl, .inl ⟨rfl, rfl⟩⟩
  | case6 kind rest hdot => exact ⟨[], rfl, .inl ⟨rfl, rfl⟩⟩

theorem exists_dotted {c : Char} (hupper : isUppercase c = true) (rest : List Char) :
    ∃ name parts, IsConstructorName name ∧
      c :: rest.take (constructorName rest).more = dotted (name :: parts) ∧
      (parts = [] ∧ (constructorName rest).kind = .conId ∨
        ∃ qualifier last, parts = qualifier ++ [last] ∧
          (∀ name ∈ qualifier, IsConstructorName name) ∧
          LastPart (constructorName rest).kind last) := by
  obtain ⟨parts, htaken, hparts⟩ := exists_parts .conId (rest.drop (runLength isNameChar rest))
  refine ⟨c :: rest.takeWhile isNameChar, parts, ?_, ?_, hparts⟩
  · exact ⟨c, _, rfl, hupper, fun c hc => List.mem_takeWhile_imp hc⟩
  · change c :: rest.take (runLength isNameChar rest + _) = _
    rw [List.take_add, htaken, take_runLength, dotted_cons]
    rfl

end Lexeme

namespace Token

open Text Lexeme

theorem scan_ofKind {offset : Nat} {c : Char} {front back : List Char} {kind : TokenKind}
    (hfirst : first c (front ++ back) = Lexeme.ofKind kind front.length) :
    scan offset (c :: (front ++ back)) = covering kind offset (String.ofList (c :: front)) ::
      scan (offset + (String.ofList (c :: front)).utf8ByteSize) back :=
  scan_cons_append hfirst rfl

section

variable {qualifier : List (List Char)} {last : List Char} (hsome : qualifier ≠ [])
  (hqualifier : ∀ name ∈ qualifier, IsConstructorName name)

include hsome hqualifier

theorem ofText_dotted {kind : TokenKind} (hlast : LastPart kind last) :
    ofText (String.ofList (dotted (qualifier ++ [last]))) =
      [covering kind 0 (String.ofList (dotted (qualifier ++ [last]))),
        eof (String.ofList (dotted (qualifier ++ [last]))).utf8ByteSize] := by
  cases qualifier with
  | nil => exact absurd rfl hsome
  | cons name names =>
      obtain ⟨⟨c, rest, rfl, hupper, hrest⟩, hnames⟩ := List.forall_mem_cons.mp hqualifier
      have hfirst : first c (rest ++ (names ++ [last]).flatMap ('.' :: ·) ++ []) =
          Lexeme.ofKind kind (rest ++ (names ++ [last]).flatMap ('.' :: ·)).length := by
        rw [List.append_nil, first_capital hupper, constructorName_append hrest,
          qualification_parts hnames hlast, List.length_append]
      rw [ofText, String.toList_ofList, List.cons_append, dotted_cons, List.cons_append]
      conv_lhs => rw [← List.append_nil (rest ++ _)]
      rw [scan_ofKind hfirst, scan, Nat.zero_add]

theorem ofText_reserved (hreserved : TokenKind.isReservedWord last = true) :
    ofText (String.ofList (dotted (qualifier ++ [last]))) =
      [covering (if qualifier.length = 1 then .conId else .qualifiedConId) 0
          (String.ofList (dotted qualifier)),
        covering .varSym (String.ofList (dotted qualifier)).utf8ByteSize ".",
        covering (TokenKind.ofWord last) ((String.ofList (dotted qualifier)).utf8ByteSize + 1)
          (String.ofList last),
        eof (String.ofList (dotted (qualifier ++ [last]))).utf8ByteSize] := by
  cases qualifier with
  | nil => exact absurd rfl hsome
  | cons name names =>
      obtain ⟨⟨c, rest, rfl, hupper, hrest⟩, hnames⟩ := List.forall_mem_cons.mp hqualifier
      have hlast := isVariableName_of_isReservedWord hreserved
      have hsplit : (names ++ [last]).flatMap ('.' :: ·) =
          names.flatMap ('.' :: ·) ++ '.' :: ([] ++ last) := by
        rw [List.flatMap_append, List.flatMap_singleton, List.nil_append]
      have hqualified : first c (rest ++ names.flatMap ('.' :: ·) ++ '.' :: ([] ++ last)) =
          Lexeme.ofKind (if names = [] then .conId else .qualifiedConId)
            (rest ++ names.flatMap ('.' :: ·)).length := by
        rw [List.append_assoc, ← hsplit, first_capital hupper, constructorName_append hrest,
          qualification_reserved hnames hreserved, List.length_append]
      obtain ⟨d, word, rfl, hstart, hword⟩ := hlast
      have hdot : first '.' ([] ++ d :: word) = Lexeme.ofKind .varSym ([] : List Char).length := by
        have hrun : runLength isSymbol (d :: word) = 0 := by
          simp [runLength, not_symbol_of_variableStart hstart]
        rw [first_dot, List.nil_append, operator, hrun]
        rfl
      have hreading : first d (word ++ []) =
          Lexeme.ofKind (TokenKind.ofWord (d :: word)) word.length := by
        rw [List.append_nil, first_variable (not_isUppercase_of_isVariableStart hstart) hstart,
          variableName, runLength_all hword, List.take_length]
      rw [ofText, String.toList_ofList, List.cons_append, dotted_cons, hsplit, List.cons_append,
        ← List.append_assoc, scan_ofKind hqualified, scan_ofKind hdot]
      conv_lhs => rw [← List.append_nil word]
      rw [scan_ofKind hreading, scan]
      have hwhole : c :: (rest ++ names.flatMap ('.' :: ·) ++ '.' :: ([] ++ d :: word)) =
          c :: (rest ++ names.flatMap ('.' :: ·)) ++ (['.'] ++ d :: word) := rfl
      have hcount : ((c :: rest) :: names).length = 1 ↔ names = [] := by simp
      have hdotSize : (String.ofList ['.']).utf8ByteSize = 1 := rfl
      rw [hwhole, dotted_cons, List.cons_append, String.ofList_append, String.ofList_append,
        String.utf8ByteSize_append, String.utf8ByteSize_append, hdotSize, Nat.zero_add,
        if_congr hcount rfl rfl, Nat.add_assoc _ 1]

end

/-- A token of a text is a name behind a capital letter, with or without a qualifier, or it begins
with another character and is no qualified name. -/
theorem capital_cases {text : String} {token : Token} (htoken : token ∈ ofText text)
    (hcontent : token.kind ≠ .eof) :
    (∃ c rest, token.text.toList = c :: rest ∧ isUppercase c = false ∧
        ¬(token.kind = .qualifiedConId ∨ token.kind = .qualifiedVarId)) ∨
      ∃ name parts, IsConstructorName name ∧ token.text.toList = dotted (name :: parts) ∧
        (parts = [] ∧ token.kind = .conId ∨
          ∃ qualifier last, parts = qualifier ++ [last] ∧
            (∀ name ∈ qualifier, IsConstructorName name) ∧ LastPart token.kind last) := by
  obtain ⟨c, piece, back, heq, hmore⟩ := exists_lexeme htoken hcontent
  have hkind : token.kind = (first c (piece ++ back)).kind := congrArg Token.kind heq
  have htext : token.text.toList = c :: piece := by
    rw [heq, text_ofLexeme]
  rw [hkind, htext]
  cases hupper : isUppercase c with
  | false =>
      refine .inl ⟨c, piece, rfl, hupper, ?_⟩
      intro hqualified
      obtain ⟨hcapital, -⟩ := constructorName_of_kind hqualified
      cases hupper.symm.trans hcapital
  | true =>
      rw [first_capital hupper] at hmore ⊢
      obtain ⟨name, parts, hname, hparts, hlast⟩ := exists_dotted hupper (piece ++ back)
      rw [hmore, List.take_left] at hparts
      exact .inr ⟨name, parts, hname, hparts, hlast⟩

end Token

namespace Node

/-- A node that holds a token as its first name or operator, alone or in parentheses. -/
inductive HoldsName (token : Token) : Node → Prop where
  | name {span : Span} {payload : Payload} {front back : List Node}
      (hkind : token.kind ∈ [.varId, .conId, .qualifiedVarId, .qualifiedConId])
      (hfront : ∀ node ∈ front, node.nameToken? = none) :
      HoldsName token
        (mk (.construct .qualifiedName) span payload (front ++ ofToken token :: back))
  | operator {span inner : Span} {payload other : Payload} {front back before behind : List Node}
      (hkind : token.kind ∈ [.varSym, .conSym])
      (hfront : ∀ node ∈ front, node.nameToken? = none)
      (hbefore : ∀ node ∈ before, node.nameToken? = none) :
      HoldsName token (mk (.construct .qualifiedName) span payload
        (front ++ mk (.construct .parenOperator) inner other
          (before ++ ofToken token :: behind) :: back))

theorem nameToken?_construct (construct : Construct) (span : Span) (payload : Payload)
    (children : List Node) :
    (mk (.construct construct) span payload children).nameToken? =
      children.findSome? nameToken? := by
  rw [nameToken?, descendants_eq]
  exact List.find?_flatMap

theorem nameToken?_ofToken {token : Token}
    (hkind : token.kind ∈
      [.varId, .conId, .qualifiedVarId, .qualifiedConId, .varSym, .conSym]) :
    (ofToken token).nameToken? = some (ofToken token) := by
  apply List.find?_cons_of_pos
  exact List.contains_iff_mem.mpr hkind

theorem findSome?_nameToken? {front back : List Node} {node found : Node}
    (hfront : ∀ node ∈ front, node.nameToken? = none) (hnode : node.nameToken? = some found) :
    (front ++ node :: back).findSome? nameToken? = some found := by
  rw [List.findSome?_append, List.findSome?_eq_none_iff.mpr hfront, Option.none_or,
    List.findSome?_cons, hnode]

theorem HoldsName.kind_mem {token : Token} {node : Node} (hholds : HoldsName token node) :
    token.kind ∈ [.varId, .conId, .qualifiedVarId, .qualifiedConId, .varSym, .conSym] := by
  cases hholds with
  | name hkind => exact List.mem_append_left [.varSym, .conSym] hkind
  | operator hkind =>
      exact List.mem_append_right [.varId, .conId, .qualifiedVarId, .qualifiedConId] hkind

theorem HoldsName.nameToken?_eq {token : Token} {node : Node} (hholds : HoldsName token node) :
    node.nameToken? = some (ofToken token) := by
  have hmem := hholds.kind_mem
  cases hholds with
  | name hkind hfront =>
      rw [nameToken?_construct]
      apply findSome?_nameToken? hfront
      exact nameToken?_ofToken hmem
  | operator hkind hfront hbefore =>
      rw [nameToken?_construct]
      apply findSome?_nameToken? hfront
      rw [nameToken?_construct]
      apply findSome?_nameToken? hbefore
      exact nameToken?_ofToken hmem

theorem isQualifiedOperator_of_hasQualifier {text : String}
    (hqualifier : Text.HasQualifier text.toList) : isQualifiedOperator text = true := by
  obtain ⟨c, rest, htext, hupper⟩ := hqualifier.exists_capital
  obtain ⟨qualifier, last, hsome, -, -, hdotted⟩ := hqualifier
  have hdot := Text.dot_mem_dotted hsome last
  rw [← hdotted] at hdot
  rw [isQualifiedOperator, List.contains_iff_mem.mpr hdot, htext]
  simpa using hupper

theorem isQualifiedName_iff {text : String} {token : Token} (htoken : token ∈ Token.ofText text)
    {node : Node} (hholds : HoldsName token node) :
    node.isQualifiedName = true ↔ Text.HasQualifier token.text.toList := by
  have hcontent : token.kind ≠ .eof := by
    intro heof
    exact absurd (heof ▸ hholds.kind_mem) (by decide)
  have htokenKind : (ofToken token).tokenKind? = some token.kind := rfl
  have htokenText : (ofToken token).tokenText? = some token.text := rfl
  unfold isQualifiedName
  rw [hholds.nameToken?_eq]
  dsimp only
  rw [htokenKind, htokenText, Option.any_some]
  rcases Token.capital_cases htoken hcontent with
    ⟨c, rest, htext, hupper, hkinds⟩ | ⟨name, parts, hname, htext, ⟨rfl, hkind⟩ | hqualified⟩
  · apply iff_of_false
    · intro hqualified
      split at hqualified
      · next heq => exact hkinds (.inr (Option.some.inj heq))
      · next heq => exact hkinds (.inl (Option.some.inj heq))
      · simp [isQualifiedOperator, htext, hupper] at hqualified
      · simp [isQualifiedOperator, htext, hupper] at hqualified
      · cases hqualified
    · intro hqualifier
      obtain ⟨other, more, heq, hcapital⟩ := hqualifier.exists_capital
      rw [htext] at heq
      rw [(List.cons.inj heq).1, hcapital] at hupper
      cases hupper
  · apply iff_of_false
    · rw [hkind]
      exact Bool.false_ne_true
    · rw [htext, Text.dotted_cons, List.flatMap_nil, List.append_nil]
      exact hname.not_hasQualifier
  · obtain ⟨qualifier, last, rfl, hnames, hlast⟩ := hqualified
    have hqualifier : Text.HasQualifier token.text.toList :=
      ⟨name :: qualifier, last, List.cons_ne_nil name qualifier,
        List.forall_mem_cons.mpr ⟨hname, hnames⟩, hlast.ne_nil, htext⟩
    apply iff_of_true _ hqualifier
    have hoperator := isQualifiedOperator_of_hasQualifier hqualifier
    generalize token.kind = kind at hlast
    cases hlast with
    | constructorName => rfl
    | variableName => rfl
    | constructorOperator => exact hoperator
    | operator => exact hoperator

end Node

open Text

/-- Qualified names are read exactly. Constructor names with dots between them and a last part that
is not reserved are one token, of a kind that the last part tells; in front of a reserved word the
qualifier is a token, and so are the dot and the word. Every qualified name of a text is such a
token, and a node that holds a name tells whether this has a qualifier. -/
theorem qualified_names :
    (∀ qualifier last kind, qualifier ≠ [] → (∀ name ∈ qualifier, IsConstructorName name) →
      LastPart kind last →
        Token.ofText (String.ofList (dotted (qualifier ++ [last]))) =
          [.covering kind 0 (String.ofList (dotted (qualifier ++ [last]))),
            .eof (String.ofList (dotted (qualifier ++ [last]))).utf8ByteSize]) ∧
    (∀ qualifier last, qualifier ≠ [] → (∀ name ∈ qualifier, IsConstructorName name) →
      TokenKind.isReservedWord last = true →
        Token.ofText (String.ofList (dotted (qualifier ++ [last]))) =
          [.covering (if qualifier.length = 1 then .conId else .qualifiedConId) 0
              (String.ofList (dotted qualifier)),
            .covering .varSym (String.ofList (dotted qualifier)).utf8ByteSize ".",
            .covering (TokenKind.ofWord last)
              ((String.ofList (dotted qualifier)).utf8ByteSize + 1) (String.ofList last),
            .eof (String.ofList (dotted (qualifier ++ [last]))).utf8ByteSize]) ∧
    ∀ text, ∀ token ∈ Token.ofText text,
      (token.kind = .qualifiedConId ∨ token.kind = .qualifiedVarId →
        ∃ qualifier last, qualifier ≠ [] ∧ (∀ name ∈ qualifier, IsConstructorName name) ∧
          LastPart token.kind last ∧ token.text.toList = dotted (qualifier ++ [last])) ∧
      ∀ node, Node.HoldsName token node →
        (node.isQualifiedName = true ↔ HasQualifier token.text.toList) := by
  refine ⟨fun _ _ _ hsome hnames => Token.ofText_dotted hsome hnames,
    fun _ _ hsome hnames => Token.ofText_reserved hsome hnames, ?_⟩
  intro text token htoken
  refine ⟨?_, fun _ => Node.isQualifiedName_iff htoken⟩
  intro hkind
  have hcontent : token.kind ≠ .eof := by
    intro heof
    rw [heof] at hkind
    exact absurd hkind (by decide)
  rcases Token.capital_cases htoken hcontent with
    ⟨c, rest, -, -, hkinds⟩ | ⟨name, parts, hname, htext, ⟨-, hother⟩ | hqualified⟩
  · exact absurd hkind hkinds
  · rw [hother] at hkind
    exact absurd hkind (by decide)
  · obtain ⟨qualifier, last, rfl, hnames, hlast⟩ := hqualified
    exact ⟨name :: qualifier, last, List.cons_ne_nil name qualifier,
      List.forall_mem_cons.mpr ⟨hname, hnames⟩, hlast, htext⟩

example : Token.ofText "M.N.of" = [.covering .qualifiedConId 0 "M.N", .covering .varSym 3 ".",
    .covering .kwOf 4 "of", .eof 6] := by
  decide +kernel

end LosslessTree
