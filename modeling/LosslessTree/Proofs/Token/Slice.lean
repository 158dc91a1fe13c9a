import LosslessTree.Proofs.Token.Cut
import LosslessTree.Proofs.Token.Source
import LosslessTree.Token.Reading

/-!
Slices of a text between its tokens. Reading a slice gives the tokens that lie in it, at their places
within the slice, and the end of the text behind them.
-/

namespace LosslessTree

open Text

namespace Lexeme

theorem first_dot (rest : List Char) : first '.' rest = operator '.' rest := by
  have hblank : isBlank '.' = false := by decide
  unfold first
  rw [if_neg (by simp [hblank])]
  rfl

theorem not_separator_of_variableStart {c : Char} (hstart : isVariableStart c = true) :
    isSeparator c = false := by
  by_contra hseparator
  rw [(classes_of_separator (by simpa using hseparator)).2.2.1] at hstart
  cases hstart

theorem not_symbol_of_variableStart {c : Char} (hstart : isVariableStart c = true) :
    isSymbol c = false := by
  by_contra hsymbol
  have hall : ['!', '#', '$', '%', '&', '*', '+', '.', '/', '<', '=', '>', '?', '@', '\\', '^',
      '|', '-', '~', ':'].all (!isVariableStart ·) = true := by decide +kernel
  have hnone := List.all_eq_true.mp hall c (List.contains_iff_mem.mp (Bool.not_eq_false _ ▸ hsymbol))
  rw [hstart] at hnone
  cases hnone

theorem not_digit_of_variableStart {c : Char} (hstart : isVariableStart c = true) :
    isDecimalDigit c = false := by
  by_contra hdigit
  have hall : ∀ code ∈ List.range' 48 10, isVariableStart (Char.ofNat code) = false := by decide
  have hcode : c.toNat ∈ List.range' 48 10 := by
    rw [List.mem_range'_1]
    simp only [isDecimalDigit, Bool.not_eq_false, Bool.and_eq_true, decide_eq_true_eq] at hdigit
    obtain ⟨hlow, hhigh⟩ := hdigit
    have hlow' : '0'.toNat ≤ c.toNat := hlow
    have hhigh' : c.toNat ≤ '9'.toNat := hhigh
    have hzero : '0'.toNat = 48 := rfl
    have hnine : '9'.toNat = 57 := rfl
    omega
  have hnone := hall _ hcode
  rw [Char.ofNat_toNat, hstart] at hnone
  cases hnone

theorem first_variable {c : Char} (hupper : isUppercase c = false)
    (hstart : isVariableStart c = true) (rest : List Char) :
    first c rest = variableName c rest := by
  have hseparator := not_separator_of_variableStart hstart
  simp only [isSeparator, Bool.or_eq_false_iff, beq_eq_false_iff_ne] at hseparator
  obtain ⟨hblank, hbrace⟩ := hseparator
  have hdash : c ≠ '-' := by
    rintro rfl
    exact absurd hstart (by decide)
  have hnone : commentary? c rest = none := by
    simp [commentary?, hbrace]
  simp [first, hblank, hnone, not_digit_of_variableStart hstart, hupper, hstart]

end Lexeme

namespace Token

/-- In front of a cut between two tokens, the word behind a dot is a token of its own. -/
theorem keepsWord_of_scan {offset : Nat} {before more : List Token} {left : List Char}
    (hscan : scan offset (chars before ++ left) = before ++ more) :
    Lexeme.KeepsWord (chars before) left := by
  intro first rest hchars hupper hstart
  cases left with
  | nil =>
      rw [List.append_nil]
      exact runLength_le _ _
  | cons next left =>
      cases before with
      | nil => cases hchars
      | cons dot before =>
          obtain ⟨c, piece, hdot, hmore, hrest⟩ := scan_token (List.cons_ne_nil _ _) hscan
          rw [chars_cons, hdot, text_ofLexeme, List.cons_append] at hchars
          obtain ⟨rfl, hbehind⟩ := List.cons.inj hchars
          have hnone : piece = [] := by
            rw [hbehind, Lexeme.first_dot] at hmore
            rw [← List.length_eq_zero_iff, ← hmore]
            simp [Lexeme.operator, Lexeme.ofKind, runLength, Lexeme.not_symbol_of_variableStart hstart]
          rw [hnone, List.nil_append] at hbehind
          cases before with
          | nil => cases hbehind
          | cons word before =>
              obtain ⟨letter, name, hword, hlength, -⟩ := scan_token (List.cons_ne_nil _ _) hrest
              rw [chars_cons, hword, text_ofLexeme, List.cons_append] at hbehind
              obtain ⟨rfl, rfl⟩ := List.cons.inj hbehind
              rw [Lexeme.first_variable hupper hstart] at hlength
              change runLength isNameChar (name ++ chars before ++ next :: left) = name.length at hlength
              have hrun : runLength isNameChar (letter :: (name ++ chars before) ++ next :: left) ≤
                  name.length + 1 := by
                rw [← hlength]
                unfold runLength
                rw [List.cons_append, List.takeWhile_cons]
                split <;> simp
              refine Nat.le_trans hrun ?_
              rw [List.length_cons, List.length_append]
              omega

theorem scan_cut {offset : Nat} {before more : List Token} {left : List Char}
    (hscan : scan offset (chars before ++ left) = before ++ more) (hmore : more ≠ []) :
    scan offset (chars before) =
      before ++ [eof (offset + (String.ofList (chars before)).utf8ByteSize)] := by
  cases left with
  | nil =>
      obtain ⟨back, hback, rfl⟩ := scan_split hscan hmore
      obtain rfl := List.append_cancel_left hback
      rw [List.append_nil] at hscan
      rw [hscan, scan]
  | cons next left =>
      induction before generalizing offset with
      | nil =>
          rw [chars, List.flatMap_nil, scan]
          rfl
      | cons token before ih =>
          obtain ⟨c, piece, htoken, hlength, hrest⟩ := scan_token (List.cons_ne_nil _ _) hscan
          have hlexeme : Lexeme.first c (piece ++ chars before) =
              Lexeme.first c (piece ++ chars before ++ next :: left) := by
            refine Lexeme.first_cut ?_ ?_
            · rw [hlength, List.length_append]
              exact Nat.le_add_right _ _
            · rw [hlength, List.drop_left]
              exact keepsWord_of_scan hrest
          have htext : token.text.toList = c :: piece := by rw [htoken, text_ofLexeme]
          have hstop : offset + (String.ofList (c :: piece)).utf8ByteSize = token.span.stop := by
            rw [htoken]
            rfl
          have hsize : (String.ofList (c :: (piece ++ chars before))).utf8ByteSize =
              (String.ofList (c :: piece)).utf8ByteSize +
                (String.ofList (chars before)).utf8ByteSize := by
            rw [← List.cons_append, String.ofList_append, String.utf8ByteSize_append]
          rw [chars_cons, htext, List.cons_append, scan_cons_append hlexeme hlength, ← htoken, hstop,
            ih hrest, hsize, ← hstop, Nat.add_assoc, List.cons_append]

/-! ## Places -/

def shift (distance : Nat) (token : Token) : Token :=
  { token with span := ⟨token.span.start + distance, token.span.stop + distance,
      Nat.add_le_add_right token.span.start_le_stop distance⟩ }

theorem shift_ofLexeme (distance offset : Nat) (lexeme : Lexeme) (text : List Char) :
    shift distance (ofLexeme lexeme offset text) = ofLexeme lexeme (offset + distance) text := by
  simp only [shift, ofLexeme, covering, Nat.add_right_comm]

/-- Where a text stands makes a difference to the places of its tokens only. -/
theorem scan_shift (distance offset : Nat) (text : List Char) :
    (scan offset text).map (shift distance) = scan (offset + distance) text := by
  induction offset, text using scan.induct with
  | case1 offset =>
      rw [scan, scan]
      rfl
  | case2 offset c rest lexeme token ih =>
      have hstop : token.span.stop + distance = (ofLexeme lexeme (offset + distance)
          (c :: rest.take lexeme.more)).span.stop := Nat.add_right_comm _ _ _
      rw [scan, scan, List.map_cons, shift_ofLexeme, ih, hstop]

def width (tokens : List Token) : Nat := (String.ofList (chars tokens)).utf8ByteSize

theorem width_append (tokens more : List Token) :
    width (tokens ++ more) = width tokens + width more := by
  rw [width, chars, List.flatMap_append, String.ofList_append, String.utf8ByteSize_append]
  rfl

theorem start_behind {offset : Nat} {text : List Char} {before after : List Token} {token : Token}
    (hscan : scan offset text = before ++ token :: after) :
    token.span.start = offset + width before := by
  obtain ⟨back, -, hback⟩ := scan_split hscan (List.cons_ne_nil _ _)
  exact start_of_scan hback

/-! ## Slices -/

def liesIn (start stop : Nat) (token : Token) : Bool :=
  token.kind != .eof && decide (start ≤ token.span.start) && decide (token.span.stop ≤ stop)

theorem liesIn_iff {start stop : Nat} {token : Token} : liesIn start stop token = true ↔
    token.kind ≠ .eof ∧ start ≤ token.span.start ∧ token.span.stop ≤ stop := by
  simp [liesIn, and_assoc]

theorem start_lt_stop {offset : Nat} {text : List Char} {token : Token}
    (htoken : token ∈ scan offset text) (hkind : token.kind ≠ .eof) :
    token.span.start < token.span.stop := by
  have hwide := scan_wide htoken hkind
  refine Nat.lt_of_le_of_ne token.span.start_le_stop fun heq => ?_
  simp [isVirtual, Span.isEmpty, heq, hkind] at hwide

section

variable {text : List Char} {before middle after : List Token}

theorem kind_of_before (hscan : scan 0 text = before ++ after) (hafter : after ≠ []) :
    ∀ token ∈ before, token.kind ≠ .eof := by
  obtain ⟨front, stop, hends, hfront⟩ := scan_ends 0 text
  obtain ⟨rest, last, rfl⟩ := (List.eq_nil_or_concat' after).resolve_left hafter
  rw [hends, ← List.append_assoc] at hscan
  obtain ⟨rfl, -⟩ := List.append_inj' hscan rfl
  exact fun token htoken => hfront token (List.mem_append_left _ htoken)

theorem stop_of_before (hscan : scan 0 text = before ++ after) (hafter : after ≠ []) :
    ∀ token ∈ before, token.span.stop ≤ width before := by
  intro token htoken
  obtain ⟨next, rest, rfl⟩ := List.exists_cons_of_ne_nil hafter
  have hordered := (scan_ordered 0 text).ordered
  have hnext := start_behind hscan
  rw [hscan] at hordered
  have hle := (List.pairwise_append.mp hordered).2.2 token htoken next List.mem_cons_self
  omega

theorem start_of_after (hscan : scan 0 text = before ++ after) :
    ∀ token ∈ after, width before ≤ token.span.start := by
  intro token htoken
  obtain ⟨back, -, hback⟩ := scan_split hscan (List.ne_nil_of_mem htoken)
  have hlow := (scan_ordered _ back).low token (hback ▸ htoken)
  rwa [Nat.zero_add] at hlow

theorem filter_liesIn (hscan : scan 0 text = before ++ (middle ++ after)) (hafter : after ≠ []) :
    (scan 0 text).filter (liesIn (width before) (width (before ++ middle))) = middle := by
  have hrest : middle ++ after ≠ [] := by simp [hafter]
  have hsplit : scan 0 text = (before ++ middle) ++ after := by rw [hscan, List.append_assoc]
  have hbefore : ∀ token ∈ before,
      ¬liesIn (width before) (width (before ++ middle)) token = true := by
    intro token htoken hlies
    obtain ⟨hkind, hstart, -⟩ := liesIn_iff.mp hlies
    have hwide := start_lt_stop (hscan ▸ List.mem_append_left _ htoken) hkind
    have hstop := stop_of_before hscan hrest token htoken
    omega
  have hmiddle : ∀ token ∈ middle,
      liesIn (width before) (width (before ++ middle)) token = true := by
    intro token htoken
    have hmem : token ∈ before ++ middle := List.mem_append_right _ htoken
    exact liesIn_iff.mpr ⟨kind_of_before hsplit hafter token hmem,
      start_of_after hscan token (List.mem_append_left _ htoken),
      stop_of_before hsplit hafter token hmem⟩
  have hbehind : ∀ token ∈ after,
      ¬liesIn (width before) (width (before ++ middle)) token = true := by
    intro token htoken hlies
    obtain ⟨hkind, -, hstop⟩ := liesIn_iff.mp hlies
    have hwide := start_lt_stop (hsplit ▸ List.mem_append_right _ htoken) hkind
    have hstart := start_of_after hsplit token htoken
    omega
  rw [hscan, List.filter_append, List.filter_append, List.filter_eq_nil_iff.mpr hbefore,
    List.filter_eq_self.mpr hmiddle, List.filter_eq_nil_iff.mpr hbehind, List.nil_append,
    List.append_nil]

theorem scan_middle (hscan : scan 0 text = before ++ (middle ++ after)) (hafter : after ≠ []) :
    (scan 0 (chars middle)).map (shift (width before)) =
      middle ++ [eof (width (before ++ middle))] := by
  obtain ⟨back, -, hback⟩ := scan_split hscan (show middle ++ after ≠ [] by simp [hafter])
  obtain ⟨rest, rfl, -⟩ := scan_split hback.symm hafter
  have hcut := scan_cut hback.symm hafter
  rw [Nat.zero_add] at hcut
  rw [scan_shift, Nat.zero_add, width_append]
  exact hcut

end

end Token

namespace Reading

open Token

theorem charsBetween_append (start stop offset : Nat) (text more : List Char) :
    charsBetween start stop offset (text ++ more) =
      charsBetween start stop offset text ++
        charsBetween start stop (offset + (String.ofList text).utf8ByteSize) more := by
  induction text generalizing offset with
  | nil => rfl
  | cons c text ih =>
      have hsize : (String.ofList (c :: text)).utf8ByteSize =
          c.utf8Size + (String.ofList text).utf8ByteSize := by
        simp [String.ofList_cons]
      rw [List.cons_append, charsBetween, charsBetween, ih, hsize, Nat.add_assoc]
      split <;> rfl

theorem charsBetween_outside {start stop offset : Nat} {text : List Char}
    (houtside : offset + (String.ofList text).utf8ByteSize ≤ start ∨ stop ≤ offset) :
    charsBetween start stop offset text = [] := by
  induction text generalizing offset with
  | nil => rfl
  | cons c text ih =>
      have hpos := c.utf8Size_pos
      have hsize : (String.ofList (c :: text)).utf8ByteSize =
          c.utf8Size + (String.ofList text).utf8ByteSize := by
        simp [String.ofList_cons]
      rw [charsBetween]
      rw [if_neg (by omega), ih (by omega)]

theorem charsBetween_inside {start stop offset : Nat} {text : List Char} (hstart : start ≤ offset)
    (hstop : offset + (String.ofList text).utf8ByteSize ≤ stop) :
    charsBetween start stop offset text = text := by
  induction text generalizing offset with
  | nil => rfl
  | cons c text ih =>
      have hpos := c.utf8Size_pos
      have hsize : (String.ofList (c :: text)).utf8ByteSize =
          c.utf8Size + (String.ofList text).utf8ByteSize := by
        simp [String.ofList_cons]
      rw [charsBetween]
      rw [if_pos (by omega), ih (by omega) (by omega)]

/-- The source between two places in between tokens is the text of the tokens between them. -/
theorem slice_between {text : String} {before middle after : List Token}
    (hscan : ofText text = before ++ (middle ++ after)) (hafter : after ≠ []) :
    (start text).slice (width before) (width (before ++ middle)) =
      String.ofList (chars middle) := by
  obtain ⟨back, htext, hback⟩ := scan_split hscan (show middle ++ after ≠ [] by simp [hafter])
  obtain ⟨rest, rfl, -⟩ := scan_split hback.symm hafter
  rw [slice, start, htext, charsBetween_append, charsBetween_append,
    charsBetween_outside (.inl (by rw [Nat.zero_add]; exact Nat.le_refl _)),
    charsBetween_inside (by rw [Nat.zero_add]; exact Nat.le_refl _)
      (by rw [Nat.zero_add, width_append]; exact Nat.le_refl _),
    charsBetween_outside (.inr (by rw [Nat.zero_add, width_append]; exact Nat.le_refl _)),
    List.nil_append, List.append_nil]

end Reading

namespace Token

variable {text : String}

theorem empty_of_eof {token : Token} (htoken : token ∈ ofText text) (hkind : token.kind = .eof) :
    token.span.stop = token.span.start := by
  obtain ⟨front, stop, hends, hfront⟩ := scan_ends 0 text.toList
  rw [ofText, hends] at htoken
  rcases List.mem_append.mp htoken with hmem | hlast
  · exact absurd hkind (hfront token hmem)
  · rw [List.mem_singleton.mp hlast]
    rfl

theorem stop_behind {before after : List Token} {token : Token}
    (hscan : ofText text = before ++ token :: after) (hkind : token.kind ≠ .eof) :
    after ≠ [] ∧ token.span.stop = width (before ++ [token]) := by
  cases after with
  | nil =>
      obtain ⟨front, stop, hends, -⟩ := scan_ends 0 text.toList
      obtain ⟨-, hlast⟩ := List.append_inj' (hscan.symm.trans hends) rfl
      exact absurd (congrArg Token.kind (List.singleton_inj.mp hlast)) hkind
  | cons next after =>
      have htile : Tile text 0 (ofText text) text.utf8ByteSize :=
        scan_tile (show text = "" ++ String.ofList text.toList by simp)
      rw [hscan] at htile
      obtain ⟨middle, -, hbehind⟩ := htile.split
      have hsplit : ofText text = (before ++ [token]) ++ next :: after := by simp [hscan]
      refine ⟨List.cons_ne_nil _ _, ?_⟩
      rw [← hbehind.tail.2.2.tail.1, start_behind hsplit, Nat.zero_add]

/-- A place where a token of a text starts, or one ends. -/
def IsBoundary (text : String) (offset : Nat) : Prop :=
  ∃ token ∈ ofText text, offset = token.span.start ∨ offset = token.span.stop

theorem IsBoundary.split {offset : Nat} (hboundary : IsBoundary text offset) :
    ∃ before after, ofText text = before ++ after ∧ after ≠ [] ∧ offset = width before := by
  obtain ⟨token, htoken, hoffset⟩ := hboundary
  obtain ⟨before, after, hscan⟩ := List.append_of_mem htoken
  have hstart := start_behind hscan
  rw [Nat.zero_add] at hstart
  have hsplit : ofText text = (before ++ [token]) ++ after := by simp [hscan]
  by_cases hkind : token.kind = .eof
  · have hempty := empty_of_eof htoken hkind
    exact ⟨before, token :: after, hscan, List.cons_ne_nil _ _, by omega⟩
  · obtain ⟨hafter, hstop⟩ := stop_behind hscan hkind
    rcases hoffset with rfl | rfl
    · exact ⟨before, token :: after, hscan, List.cons_ne_nil _ _, hstart⟩
    · exact ⟨before ++ [token], after, hsplit, hafter, hstop⟩

theorem exists_between {before rest front after : List Token}
    (hscan : ofText text = before ++ rest) (hsplit : ofText text = front ++ after)
    (hrest : rest ≠ []) (hle : width before ≤ width front) :
    ∃ middle, front = before ++ middle := by
  rcases List.append_eq_append_iff.mp (hscan.symm.trans hsplit) with
    ⟨middle, hfront, -⟩ | ⟨middle, hbefore, -⟩
  · exact ⟨middle, hfront⟩
  · cases middle with
    | nil => exact ⟨[], by simp [hbefore]⟩
    | cons token middle =>
        subst hbefore
        have hmem : token ∈ front ++ token :: middle := by simp
        have hkind := kind_of_before hscan hrest token hmem
        have hstop := stop_of_before hscan hrest token hmem
        have hscan' : ofText text = front ++ token :: (middle ++ rest) := by simp [hscan]
        have hwide := start_lt_stop (hscan ▸ List.mem_append_left _ hmem) hkind
        have hstart := start_behind hscan'
        omega

/-- A slice of a text between two boundaries of tokens reads as the tokens that lie in it, and the
text of a single token as that token. -/
theorem ofText_slice (text : String) :
    (∀ start stop, IsBoundary text start → IsBoundary text stop → start ≤ stop →
      (ofText ((Reading.start text).slice start stop)).map (shift start) =
        (ofText text).filter (liesIn start stop) ++ [eof stop]) ∧
    ∀ token ∈ ofText text, token.kind ≠ .eof →
      (ofText token.text).map (shift token.span.start) = [token, eof token.span.stop] := by
  constructor
  · intro start stop hstart hstop hle
    obtain ⟨before, rest, hscan, hrest, rfl⟩ := hstart.split
    obtain ⟨front, after, hsplit, hafter, rfl⟩ := hstop.split
    obtain ⟨middle, rfl⟩ := exists_between hscan hsplit hrest hle
    rw [List.append_assoc] at hsplit
    rw [Reading.slice_between hsplit hafter, ofText, String.toList_ofList,
      scan_middle hsplit hafter, ofText, filter_liesIn hsplit hafter]
  · intro token htoken hkind
    obtain ⟨before, after, hscan⟩ := List.append_of_mem htoken
    obtain ⟨hafter, hstop⟩ := stop_behind hscan hkind
    have hmiddle : ofText text = before ++ ([token] ++ after) := hscan
    rw [start_behind hscan, Nat.zero_add, hstop, ofText, ← chars_singleton]
    exact scan_middle hmiddle hafter

/-- A dot that a reserved word follows reads as a dot without the word as well. -/
theorem ofText_slice_of_dot :
    (ofText ((Reading.start "M.where").slice 0 2)).map (shift 0) =
        (ofText "M.where").filter (liesIn 0 2) ++ [eof 2] ∧
      (ofText ".").map (shift 1) = [.covering .varSym 1 ".", eof 2] := by
  have hdot : .covering .varSym 1 "." ∈ ofText "M.where" := by decide +kernel
  have hstart : IsBoundary "M.where" 0 := ⟨.covering .conId 0 "M", by decide +kernel, .inl rfl⟩
  exact ⟨(ofText_slice "M.where").1 0 2 hstart ⟨_, hdot, .inr rfl⟩ (by decide),
    (ofText_slice "M.where").2 _ hdot (by decide)⟩

end Token

end LosslessTree
