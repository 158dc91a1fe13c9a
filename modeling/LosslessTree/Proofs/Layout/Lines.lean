import LosslessTree.Proofs.Layout.Detour
import LosslessTree.Proofs.Token.Ending

/-!
Which tokens begin a line. What counts is a line break between a token and the last one with content
in front of it. A line break of the text may also lie in a token, and then the next token does not
begin a line. With blanks up to the end of the token this happens to flawed ones only.
-/

namespace LosslessTree

open Text

namespace Layout

open Token

/-- No token in front has content, or there is a line break behind the last one that has. -/
def StartsLine (before : List Token) : Prop :=
  (∀ token ∈ before, token.isTrivia = true) ∨
    ∃ early gap, before = early ++ gap ∧ (∀ token ∈ gap, token.isTrivia = true) ∧
      '\n' ∈ chars gap

/-- The characters of some tokens, each with whether it is a blank or lies in a comment. -/
def shades (tokens : List Token) : List (Char × Bool) :=
  tokens.flatMap fun token => token.text.toList.map fun c => (c, token.isTrivia || isBlank c)

/-- No token in front has content, or behind the last line break of the text there are only blanks
and comments. -/
def LeadsLine (before : List Token) : Prop :=
  (∀ token ∈ before, token.isTrivia = true) ∨
    '\n' ∈ chars before ∧
      ∀ entry ∈ (shades before).reverse.takeWhile (·.1 != '\n'), entry.2 = true

instance (before : List Token) : Decidable (LeadsLine before) :=
  inferInstanceAs (Decidable (_ ∨ _ ∧ _))

/-- The last token with content is flawed, and the line break behind which there are only blanks and
comments is part of it. -/
def TakesBreak (before : List Token) : Prop :=
  ∃ early last gap front line, before = early ++ last :: gap ∧ last.kind = .flawed ∧
    last.text.toList = front ++ '\n' :: line ∧ (∀ c ∈ line, isBlank c = true) ∧
    (∀ token ∈ gap, token.isTrivia = true) ∧ '\n' ∉ chars gap

/-! ## Line breaks between tokens -/

theorem chars_append (tokens more : List Token) :
    chars (tokens ++ more) = chars tokens ++ chars more := List.flatMap_append

theorem startsLine_concat {before : List Token} {token : Token} :
    StartsLine (before ++ [token]) ↔
      token.isTrivia = true ∧ (StartsLine before ∨ '\n' ∈ token.text.toList) := by
  constructor
  · rintro (hall | ⟨early, gap, heq, hgap, hbreak⟩)
    · obtain ⟨hbefore, htoken⟩ := List.forall_mem_append.mp hall
      exact ⟨htoken token List.mem_cons_self, .inl (.inl hbefore)⟩
    · obtain rfl | ⟨gap, last, rfl⟩ := List.eq_nil_or_concat' gap
      · cases hbreak
      · rw [← List.append_assoc] at heq
        obtain ⟨rfl, hlast⟩ := List.append_inj' heq rfl
        obtain rfl : token = last := List.singleton_inj.mp hlast
        obtain ⟨hgap, htoken⟩ := List.forall_mem_append.mp hgap
        refine ⟨htoken token List.mem_cons_self, ?_⟩
        rw [chars_append, chars_singleton, List.mem_append] at hbreak
        exact hbreak.imp_left fun hbreak => .inr ⟨early, gap, rfl, hgap, hbreak⟩
  · rintro ⟨htrivia, (hall | ⟨early, gap, rfl, hgap, hbreak⟩) | hbreak⟩
    · exact .inl (List.forall_mem_append.mpr ⟨hall, List.forall_mem_singleton.mpr htrivia⟩)
    · refine .inr ⟨early, gap ++ [token], List.append_assoc _ _ _,
        List.forall_mem_append.mpr ⟨hgap, List.forall_mem_singleton.mpr htrivia⟩, ?_⟩
      rw [chars_append]
      exact List.mem_append_left _ hbreak
    · exact .inr ⟨before, [token], rfl, List.forall_mem_singleton.mpr htrivia,
        by rwa [chars_singleton]⟩

theorem fresh_step (token : Token) (state : State) :
    (step token state).2.fresh =
      (token.isTrivia && (state.fresh || token.text.toList.contains '\n')) := by
  rw [step_eq]
  change (token.isTrivia && ((decideModule token.kind state).fresh || _)) = _
  rw [(column_decideModule token.kind state).2.1]

/-- Layout takes a token for the first one of a line if there is a line break behind the last token
with content. -/
theorem fresh_reach (mode : Mode) (before : List Token) :
    (reach (start mode) before).fresh = true ↔ StartsLine before := by
  induction before using List.reverseRecOn with
  | nil => exact iff_of_true rfl (.inl fun _ htoken => absurd htoken List.not_mem_nil)
  | append_singleton before token ih =>
      have hfresh : (reach (start mode) (before ++ [token])).fresh =
          (token.isTrivia &&
            ((reach (start mode) before).fresh || token.text.toList.contains '\n')) := by
        rw [reach_append, reach, reach]
        split
        · rfl
        · exact fresh_step token _
      rw [hfresh, startsLine_concat, ← ih]
      simp

/-! ## Line breaks of the text -/

theorem shades_append (tokens more : List Token) :
    shades (tokens ++ more) = shades tokens ++ shades more := List.flatMap_append

theorem shades_chars (tokens : List Token) : (shades tokens).map (·.1) = chars tokens := by
  simp [shades, chars, List.map_flatMap, Function.comp_def]

theorem mem_shades {tokens : List Token} {entry : Char × Bool} :
    entry ∈ shades tokens ↔
      ∃ token ∈ tokens, ∃ c ∈ token.text.toList, (c, token.isTrivia || isBlank c) = entry := by
  simp [shades]

theorem mem_takeWhile_append {entries more : List (Char × Bool)} (hbreak : '\n' ∈ entries.map (·.1))
    {entry : Char × Bool} (hentry : entry ∈ (entries ++ more).takeWhile (·.1 != '\n')) :
    entry ∈ entries := by
  rw [List.takeWhile_append] at hentry
  split at hentry
  · next hall =>
      rw [← (List.takeWhile_prefix _).eq_of_length hall] at hbreak
      obtain ⟨stop, hstop, heq⟩ := List.mem_map.mp hbreak
      have hpasses := List.mem_takeWhile_imp hstop
      simp [heq] at hpasses
  · exact (List.takeWhile_prefix _).subset hentry

theorem leadsLine_of_startsLine {before : List Token} (hstarts : StartsLine before) :
    LeadsLine before := by
  refine hstarts.imp_right ?_
  rintro ⟨early, gap, rfl, hgap, hbreak⟩
  refine ⟨by rw [chars_append]; exact List.mem_append_right _ hbreak, fun entry hentry => ?_⟩
  rw [shades_append, List.reverse_append] at hentry
  have hmem := mem_takeWhile_append (by simpa [shades_chars] using hbreak) hentry
  obtain ⟨token, htoken, c, -, rfl⟩ := mem_shades.mp (List.mem_reverse.mp hmem)
  rw [hgap token htoken, Bool.true_or]

theorem not_startsLine_of_takesBreak {before : List Token} (htakes : TakesBreak before) :
    ¬StartsLine before := by
  obtain ⟨early, last, gap, front, line, rfl, hflawed, -, -, -, hnone⟩ := htakes
  have hlast : last.isTrivia ≠ true := by
    rw [isTrivia, hflawed]
    exact Bool.false_ne_true
  rintro (hall | ⟨earlier, later, heq, htrivia, hbreak⟩)
  · exact hlast (hall last (by simp))
  · rcases List.append_eq_append_iff.mp heq with ⟨middle, -, hgap⟩ | ⟨middle, -, hlater⟩
    · cases middle with
      | nil =>
          obtain rfl : last :: gap = later := hgap
          exact hlast (htrivia last List.mem_cons_self)
      | cons _ middle =>
          obtain ⟨-, hgap⟩ := List.cons.inj (hgap.trans List.cons_append)
          rw [hgap, chars_append] at hnone
          exact hnone (List.mem_append_right _ hbreak)
    · exact hlast (htrivia last (by simp [hlater]))

theorem exists_last_content (before : List Token) :
    (∀ token ∈ before, token.isTrivia = true) ∨
      ∃ early last gap, before = early ++ last :: gap ∧ last.isTrivia = false ∧
        ∀ token ∈ gap, token.isTrivia = true := by
  induction before using List.reverseRecOn with
  | nil => exact .inl fun _ htoken => absurd htoken List.not_mem_nil
  | append_singleton before token ih =>
      cases htrivia : token.isTrivia with
      | false =>
          exact .inr
            ⟨before, token, [], rfl, htrivia, fun _ htoken => absurd htoken List.not_mem_nil⟩
      | true =>
          rcases ih with hall | ⟨early, last, gap, rfl, hlast, hgap⟩
          · exact .inl (List.forall_mem_append.mpr ⟨hall, List.forall_mem_singleton.mpr htrivia⟩)
          · exact .inr ⟨early, last, gap ++ [token], List.append_assoc _ _ _, hlast,
              List.forall_mem_append.mpr ⟨hgap, List.forall_mem_singleton.mpr htrivia⟩⟩

theorem takeWhile_shades {early gap : List Token} (hgap : '\n' ∉ chars gap) (last : Token) :
    (shades (early ++ last :: gap)).reverse.takeWhile (·.1 != '\n') =
      (shades gap).reverse ++
        ((shades early ++ shades [last]).reverse).takeWhile (·.1 != '\n') := by
  rw [List.append_cons, shades_append, List.reverse_append, shades_append,
    List.takeWhile_append_of_pos]
  intro entry hentry
  obtain ⟨token, htoken, c, hc, rfl⟩ := mem_shades.mp (List.mem_reverse.mp hentry)
  have hne : c ≠ '\n' := by
    rintro rfl
    exact hgap (List.mem_flatMap.mpr ⟨token, htoken, hc⟩)
  simpa using hne

theorem mem_takeWhile_of_quiet {line : List Char} (hline : '\n' ∉ line) (shade : Char → Bool)
    {c : Char} (hc : c ∈ line) (more : List (Char × Bool)) :
    (c, shade c) ∈ ((line.map fun c => (c, shade c)) ++ more).takeWhile (·.1 != '\n') := by
  rw [List.takeWhile_append_of_pos]
  · exact List.mem_append_left _ (List.mem_map_of_mem hc)
  · intro entry hentry
    obtain ⟨d, hd, rfl⟩ := List.mem_map.mp hentry
    have hne : d ≠ '\n' := by
      rintro rfl
      exact hline hd
    simpa using hne

/-- Where behind the last line break of the text there are blanks and comments only, and the last
token with content is in front of it or around it. -/
theorem exists_break_in_last {early gap : List Token} {last : Token} (hlast : last.isTrivia = false)
    (hgap : '\n' ∉ chars gap) {c : Char} {piece : List Char} (htext : last.text.toList = c :: piece)
    (hvisible : isBlank c = false)
    (hshades : ∀ entry ∈ (shades (early ++ last :: gap)).reverse.takeWhile (·.1 != '\n'),
      entry.2 = true) :
    ∃ front line, last.text.toList = front ++ '\n' :: line ∧ ∀ c ∈ line, isBlank c = true := by
  rw [takeWhile_shades hgap, List.reverse_append] at hshades
  have hshades := fun entry hentry => hshades entry (List.mem_append_right _ hentry)
  have hentries : (shades [last]).reverse =
      last.text.toList.reverse.map fun c => (c, isBlank c) := by
    simp [shades, hlast]
  rw [hentries] at hshades
  by_cases hbreak : '\n' ∈ last.text.toList
  · obtain ⟨line, front, heq, hline⟩ := List.eq_append_cons_of_mem (List.mem_reverse.mpr hbreak)
    refine ⟨front.reverse, line.reverse, by simpa using congrArg List.reverse heq, fun c hc => ?_⟩
    refine hshades (c, isBlank c) ?_
    rw [heq, List.map_append, List.append_assoc]
    exact mem_takeWhile_of_quiet hline isBlank (List.mem_reverse.mp hc) _
  · have hfirst := hshades (c, isBlank c)
      (mem_takeWhile_of_quiet (by simpa using hbreak) isBlank (by simp [htext]) _)
    rw [hvisible] at hfirst
    cases hfirst

theorem flawed_of_break {last : Token} {front line : List Char}
    (htext : last.text.toList = front ++ '\n' :: line) (hline : ∀ c ∈ line, isBlank c = true)
    (hends : last.kind ≠ .flawed → EndsVisibly last.text.toList) : last.kind = .flawed := by
  by_contra hflawed
  have hvisible := hends hflawed
  rw [htext, EndsVisibly, List.getLast?_append, List.getLast?_cons] at hvisible
  have hlast := hvisible _ rfl
  cases hcase : line.getLast? with
  | none =>
      rw [hcase] at hlast
      exact absurd hlast (by decide)
  | some d =>
      rw [hcase] at hlast
      change isBlank d = false at hlast
      rw [hline d (List.mem_of_getLast? hcase)] at hlast
      cases hlast

/-- Where the last line break in front of a token of a text has only blanks and comments behind it, the
token begins a line, except that a flawed token may have taken the line break. No line is noticed
anywhere else. -/
theorem fresh_iff_leadsLine (mode : Mode) {text : String} {before after : List Token} {token : Token}
    (hscan : Token.ofText text = before ++ token :: after) :
    (reach (start mode) before).fresh = true ↔ LeadsLine before ∧ ¬TakesBreak before := by
  rw [fresh_reach]
  refine ⟨fun hstarts => ⟨leadsLine_of_startsLine hstarts,
    fun htakes => not_startsLine_of_takesBreak htakes hstarts⟩, ?_⟩
  rintro ⟨hleads, hspares⟩
  rcases exists_last_content before with hall | ⟨early, last, gap, rfl, hlast, hgap⟩
  · exact .inl hall
  · by_cases hbreak : '\n' ∈ chars gap
    · exact .inr ⟨early ++ [last], gap, List.append_cons early last gap, hgap, hbreak⟩
    · have hmem : last ∈ Token.ofText text := by simp [hscan]
      have hcontent : last.kind.IsContent := ⟨ends_of_scan hscan last (by simp), hlast⟩
      obtain ⟨c, piece, htext, hvisible, hends⟩ := visible_of_scan hmem hcontent
      rcases hleads with hall | ⟨-, hshades⟩
      · exact absurd (hall last (by simp)) (by simp [hlast])
      · obtain ⟨front, line, hsplit, hline⟩ :=
          exists_break_in_last hlast hbreak htext hvisible hshades
        have hflawed := flawed_of_break hsplit hline (by rwa [htext])
        exact absurd ⟨early, last, gap, front, line, rfl, hflawed, hsplit, hline, hgap, hbreak⟩
          hspares

/-- A binding whose string is open where its line ends. -/
def openString : List Token :=
  [.covering .varId 0 "x", .covering .whitespace 1 " ", .covering .equals 2 "=",
    .covering .whitespace 3 " ",
    { Token.covering .flawed 4 "\"a\n" with flaw := some Flaw.lineEndInString.message }]

theorem ofText_openString : Token.ofText "x = \"a\ny = 1" =
    openString ++ .covering .varId 7 "y" ::
      [.covering .whitespace 8 " ", .covering .equals 9 "=", .covering .whitespace 10 " ",
        .covering .integer 11 "1", .eof 12] := by
  decide +kernel

theorem fresh_iff_leadsLine_of_openString :
    (reach (start .module) openString).fresh = true ↔
      LeadsLine openString ∧ ¬TakesBreak openString :=
  fresh_iff_leadsLine .module ofText_openString

/-- The binding on the line behind an open string is not taken for an item. -/
theorem exists_line_missed :
    ∃ before token after, Token.ofText "x = \"a\ny = 1" = before ++ token :: after ∧
      token.text = "y" ∧ LeadsLine before ∧ (reach (start .module) before).fresh = false ∧
      .semi ∉ (step token (reach (start .module) before)).1 :=
  ⟨openString, _, _, ofText_openString, rfl, by decide, by decide, by decide⟩

end Layout

end LosslessTree
