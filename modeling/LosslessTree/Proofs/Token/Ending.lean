import LosslessTree.Proofs.Token.Extent

/-!
How tokens end. A name, a number or an operator has no blank in it at all, and a string, a character
or a pragma ends with its closing mark. A token that ends in a blank is therefore one itself, or a
comment, or it is flawed.
-/

namespace LosslessTree

namespace Text

def Dense (text : List Char) : Prop := ∀ c ∈ text, isSeparator c = false

theorem dense_nil : Dense [] := fun _ hc => absurd hc List.not_mem_nil

theorem dense_cons {c : Char} {rest : List Char} (hc : isNameChar c = true ∨ isSymbol c = true)
    (hrest : Dense rest) : Dense (c :: rest) :=
  List.forall_mem_cons.mpr
    ⟨Bool.eq_false_iff.mpr fun hseparator => ne_of_separator hseparator hc rfl, hrest⟩

theorem dense_run {test : Char → Bool} (htest : ∀ c, isSeparator c = true → test c = false)
    (text : List Char) : Dense (text.take (runLength test text)) := by
  intro c hc
  rw [runLength, ← List.prefix_iff_eq_take.mp (List.takeWhile_prefix test)] at hc
  have htaken := List.mem_takeWhile_imp hc
  refine Bool.eq_false_iff.mpr fun hseparator => ?_
  rw [htest c hseparator] at htaken
  cases htaken

theorem dense_add {text : List Char} {first second : Nat} (hfirst : Dense (text.take first))
    (hsecond : Dense ((text.drop first).take second)) : Dense (text.take (first + second)) := by
  rw [List.take_add]
  exact List.forall_mem_append.mpr ⟨hfirst, hsecond⟩

def EndsVisibly (text : List Char) : Prop := ∀ c ∈ text.getLast?, isBlank c = false

theorem Dense.endsVisibly {text : List Char} (hdense : Dense text) : EndsVisibly text := by
  intro c hc
  have hseparator := hdense c (List.mem_of_getLast? hc)
  exact (Bool.or_eq_false_iff.mp hseparator).1

theorem endsVisibly_of_last {text : List Char} {last : Char} (hlast : text.getLast? = some last)
    (hvisible : isBlank last = false) : EndsVisibly text := by
  intro c hc
  rw [hlast] at hc
  exact Option.some.inj hc ▸ hvisible

theorem endsVisibly_cons {c : Char} {rest : List Char} (hsome : rest ≠ [])
    (hrest : EndsVisibly rest) : EndsVisibly (c :: rest) := by
  obtain ⟨next, rest, rfl⟩ := List.exists_cons_of_ne_nil hsome
  rwa [EndsVisibly, List.getLast?_cons_cons]

end Text

open Text

namespace Lexeme

/-! ## Numbers, names and operators -/

theorem dense_fraction (rest : List Char) : Dense (rest.take (fractionLength rest)) := by
  unfold fractionLength
  split
  · next rest =>
      have hdigits := dense_run isDecimalDigit_of_separator rest
      split
      · exact dense_nil
      · next digits hrun =>
          rw [hrun] at hdigits
          exact dense_cons (.inr (by decide)) hdigits
  · exact dense_nil

theorem dense_sign (rest : List Char) : Dense (rest.take (signLength rest)) := by
  unfold signLength
  split
  · exact dense_nil
  · split
    · next hsign =>
        refine dense_cons (.inr ?_) dense_nil
        rcases hsign with rfl | rfl <;> decide
    · exact dense_nil

theorem dense_exponent (rest : List Char) : Dense (rest.take (exponentLength rest)) := by
  cases rest with
  | nil => exact dense_nil
  | cons mark rest =>
      by_cases hmark : mark = 'e' ∨ mark = 'E'
      · rw [exponentLength_mark hmark]
        split
        · exact dense_nil
        · rw [Nat.add_assoc, Nat.add_comm]
          refine dense_cons (.inl ?_)
            (dense_add (dense_sign rest) (dense_run isDecimalDigit_of_separator _))
          rcases hmark with rfl | rfl <;> decide +kernel
      · simp only [exponentLength, if_neg hmark]
        exact dense_nil

theorem dense_decimal (rest : List Char) : Dense (rest.take (decimal rest).more) := by
  have hwhole (c : Char) (hseparator : isSeparator c = true) :
      (isDecimalDigit c || c == '_') = false := by
    have hunderscore : c ≠ '_' := ne_of_separator hseparator (.inl (by decide))
    simp [isDecimalDigit_of_separator c hseparator, hunderscore]
  exact dense_add (dense_add (dense_run hwhole rest) (dense_fraction _)) (dense_exponent _)

theorem dense_number {c : Char} (rest : List Char) (hkind : (number c rest).kind ≠ .flawed) :
    Dense (rest.take (number c rest).more) := by
  unfold number at hkind ⊢
  split
  · next letter digits =>
      split
      · next base hbase =>
          simp only [hbase] at hkind
          have hdigit (c : Char) (hseparator : isSeparator c = true) :
              (isDigitIn base c || c == '_') = false := by
            have hunderscore : c ≠ '_' := ne_of_separator hseparator (.inl (by decide))
            simp [isDigitIn_of_separator base hseparator, hunderscore]
          have hrun := dense_run hdigit digits
          unfold based at hkind ⊢
          split
          · next hnone =>
              rw [hnone] at hkind
              exact absurd rfl hkind
          · next count hcount =>
              rw [hcount] at hrun
              change Dense (List.take (1 + (count + 1)) (letter :: digits))
              rw [Nat.add_comm]
              refine List.forall_mem_cons.mpr ⟨Bool.eq_false_iff.mpr fun hseparator => ?_, hrun⟩
              rw [baseOfLetter?_of_separator hseparator] at hbase
              cases hbase
      · exact dense_decimal _
  · exact dense_decimal _

theorem dense_qualification (kind : TokenKind) (rest : List Char) :
    Dense (rest.take (qualification kind rest).2) := by
  induction kind, rest using qualification.induct with
  | case1 kind first rest name hupper _ _ _ ih =>
      rw [qualification_constructor hupper]
      dsimp only
      rw [Nat.add_assoc, Nat.add_comm]
      exact dense_cons (.inr (by decide)) (dense_add (dense_run isNameChar_of_separator _) ih)
  | case2 kind first rest name hupper hstart hreserved =>
      rw [qualification_variable (Bool.eq_false_iff.mpr hupper) hstart, if_pos hreserved]
      exact dense_nil
  | case3 kind first rest name hupper hstart hreserved =>
      rw [qualification_variable (Bool.eq_false_iff.mpr hupper) hstart, if_neg hreserved]
      dsimp only
      rw [Nat.add_comm]
      exact dense_cons (.inr (by decide)) (dense_run isNameChar_of_separator _)
  | case4 kind first rest hupper hstart hsymbol =>
      rw [qualification_operator (Bool.eq_false_iff.mpr hupper) (Bool.eq_false_iff.mpr hstart),
        if_pos hsymbol, Nat.add_comm]
      exact dense_cons (.inr (by decide)) (dense_run isSymbol_of_separator _)
  | case5 kind first rest hupper hstart hsymbol =>
      rw [qualification_operator (Bool.eq_false_iff.mpr hupper) (Bool.eq_false_iff.mpr hstart),
        if_neg hsymbol]
      exact dense_nil
  | case6 kind rest hdot =>
      rw [qualification]
      · exact dense_nil
      · exact hdot

theorem dense_constructorName (rest : List Char) :
    Dense (rest.take (constructorName rest).more) :=
  dense_add (dense_run isNameChar_of_separator rest) (dense_qualification _ _)

/-! ## Strings, characters and pragmas -/

theorem last_string {spot : StringSpot} {rest : List Char}
    (hnone : (stringEnd spot rest).1 = none) :
    (rest.take (stringEnd spot rest).2).getLast? = some '"' := by
  induction rest generalizing spot with
  | nil => cases spot <;> cases hnone
  | cons c rest ih =>
      have hfurther {spot : StringSpot} (hnone : (stringEnd spot rest).1 = none) :
          ((c :: rest).take ((stringEnd spot rest).2 + 1)).getLast? = some '"' := by
        have hlast := ih hnone
        rw [List.take_succ_cons, List.getLast?_cons, hlast]
        rfl
      cases spot with
      | plain =>
          simp only [stringEnd] at hnone ⊢
          split_ifs at hnone ⊢ with hbackslash hgap hquote hline
          · exact hfurther hnone
          · exact hfurther hnone
          · rw [hquote]
            rfl
          · exact hfurther hnone
      | escaped =>
          simp only [stringEnd] at hnone ⊢
          split_ifs at hnone ⊢
          exact hfurther hnone
      | gap =>
          simp only [stringEnd] at hnone ⊢
          split_ifs at hnone ⊢
          · exact hfurther hnone
          · exact hfurther hnone

theorem last_closed {rest : List Char} {length : Nat} (hkind : (closed rest length).kind ≠ .flawed) :
    (rest.take (closed rest length).more).getLast? = some '\'' := by
  unfold closed at hkind ⊢
  split
  · next hquote =>
      change (rest.take (length + 1)).getLast? = _
      rw [List.head?_drop] at hquote
      rw [List.take_add_one, hquote, List.getLast?_append]
      rfl
  · next hquote =>
      rw [if_neg hquote] at hkind
      exact absurd rfl hkind

theorem last_character {rest : List Char} (hkind : (character rest).kind ≠ .flawed) :
    (rest.take (character rest).more).getLast? = some '\'' := by
  revert hkind
  unfold character
  split
  · exact absurd rfl
  · exact absurd rfl
  · exact last_closed
  · split
    · exact absurd rfl
    · exact last_closed

theorem last_pragma {length : Nat} {rest : List Char} (hlength : pragmaLength? rest = some length) :
    (rest.take length).getLast? = some '\x7d' := by
  fun_induction pragmaLength? rest generalizing length with
  | case1 => cases hlength
  | case2 tail =>
      obtain rfl := Option.some.inj hlength
      rfl
  | case3 _ _ _ ih =>
      obtain ⟨inner, hinner, rfl⟩ := Option.map_eq_some_iff.mp hlength
      rw [List.take_succ_cons, List.getLast?_cons, ih hinner]
      rfl

theorem commentary?_endsVisibly {c : Char} {rest : List Char} {lexeme : Lexeme}
    (hlexeme : commentary? c rest = some lexeme) (hcontent : lexeme.kind.IsContent)
    (hflaw : lexeme.kind ≠ .flawed) : EndsVisibly (rest.take lexeme.more) := by
  unfold commentary? at hlexeme
  split at hlexeme
  · split at hlexeme
    · obtain rfl := Option.some.inj hlexeme
      cases hcontent.2
    · cases hlexeme
  · next rest =>
      obtain rfl := Option.some.inj hlexeme
      unfold pragma at hflaw ⊢
      split at hflaw
      · next length hlength =>
          change EndsVisibly (('-' :: '#' :: rest).take (2 + length))
          rw [Nat.add_comm]
          refine endsVisibly_of_last ?_ (show isBlank '\x7d' = false by decide)
          change ('-' :: '#' :: rest.take length).getLast? = _
          rw [List.getLast?_cons, List.getLast?_cons, last_pragma hlength]
          rfl
      · exact absurd rfl hflaw
  · obtain rfl := Option.some.inj hlexeme
    unfold blockComment at hcontent hflaw
    split at hflaw
    · next hlength =>
        simp only [hlength] at hcontent
        cases hcontent.2
    · exact absurd rfl hflaw
  · cases hlexeme

/-- What a lexeme takes beyond its first character does not end in a blank, unless it is one itself or
a comment, or flawed. -/
theorem first_endsVisibly {c : Char} {rest : List Char} (hcontent : (first c rest).kind.IsContent)
    (hflaw : (first c rest).kind ≠ .flawed) : EndsVisibly (rest.take (first c rest).more) := by
  have hnone : EndsVisibly (rest.take 0) := dense_nil.endsVisibly
  revert hcontent hflaw
  unfold first
  split
  · exact fun hcontent => nomatch hcontent.2
  split
  · next hlexeme => exact commentary?_endsVisibly hlexeme
  split
  · exact fun _ hflaw => (dense_number rest hflaw).endsVisibly
  split
  · exact fun _ _ => (dense_constructorName rest).endsVisibly
  split
  · exact fun _ _ => (dense_run isNameChar_of_separator rest).endsVisibly
  split
  · intro _ hflaw
    unfold string at hflaw ⊢
    split at hflaw
    · next length hend =>
        have hlast := last_string (congrArg Prod.fst hend)
        rw [hend] at hlast
        exact endsVisibly_of_last hlast (by decide)
    · exact absurd rfl hflaw
  split
  · exact fun _ hflaw => endsVisibly_of_last (last_character hflaw) (by decide)
  split
  · exact fun _ _ => hnone
  split
  · exact fun _ _ => (dense_run isSymbol_of_separator rest).endsVisibly
  · exact fun _ _ => hnone

end Lexeme

namespace Token

/-- A token of a text with content begins with no blank, and ends with none if it is not flawed. -/
theorem visible_of_scan {offset : Nat} {text : List Char} {token : Token}
    (htoken : token ∈ scan offset text) (hcontent : token.kind.IsContent) :
    ∃ c piece, token.text.toList = c :: piece ∧ isBlank c = false ∧
      (token.kind ≠ .flawed → EndsVisibly (c :: piece)) := by
  obtain ⟨c, piece, back, heq, hmore⟩ := exists_lexeme htoken hcontent.1
  have hkind : token.kind = (Lexeme.first c (piece ++ back)).kind := congrArg kind heq
  rw [hkind] at hcontent
  have hvisible := Lexeme.not_blank_of_content hcontent
  refine ⟨c, piece, (congrArg (·.text.toList) heq).trans (text_ofLexeme _ _ _), hvisible,
    fun hflaw => ?_⟩
  rw [hkind] at hflaw
  have hends := Lexeme.first_endsVisibly hcontent hflaw
  rw [hmore, List.take_left] at hends
  by_cases hnil : piece = []
  · subst hnil
    exact endsVisibly_of_last rfl hvisible
  · exact endsVisibly_cons hnil hends

end Token

end LosslessTree
