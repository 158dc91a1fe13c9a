import Mathlib.Data.List.Induction
import LosslessTree.Proofs.Layout.Depth
import LosslessTree.Proofs.Parse.Significance
import LosslessTree.Proofs.Token.Insertion

/-!
A closing bracket on a line of its own in front of an item of the outermost block: its text, its
tokens and its marks. Of the significant tokens, it adds the bracket and one more mark of an item,
and says the same of all others.
-/

namespace LosslessTree

namespace Token

theorem significant_append {tokens : List Token} (hends : ∀ token ∈ tokens, token.kind ≠ .eof)
    (more : List Token) :
    significant (tokens ++ more) = tokens.filter (!·.isTrivia) ++ significant more := by
  rw [significant, List.takeWhile_append_of_pos (by simpa using hends), List.filter_append]
  rfl

theorem significant_cons {token : Token} (hcontent : token.kind.IsContent) (rest : List Token) :
    significant (token :: rest) = token :: significant rest := by
  have htrivia : token.isTrivia = false := hcontent.2
  simp [significant, hcontent.1, htrivia]

theorem significant_cons_of_trivia {token : Token} (htrivia : token.isTrivia = true)
    (rest : List Token) : significant (token :: rest) = significant rest := by
  have hkind : token.kind ≠ .eof := fun hkind => by
    rw [isTrivia, hkind] at htrivia
    cases htrivia
  simp [significant, hkind, htrivia]

theorem significant_same {tokens others : List Token} (hsame : List.Forall₂ Same tokens others) :
    List.Forall₂ Same (significant tokens) (significant others) := by
  induction hsame with
  | nil => exact .nil
  | @cons token other rest more hfirst _ ih =>
      unfold significant at ih ⊢
      rw [List.takeWhile_cons, List.takeWhile_cons, ← hfirst.kind]
      split
      · rw [List.filter_cons, List.filter_cons, ← hfirst.isTrivia_eq]
        split
        · exact .cons hfirst ih
        · exact ih
      · exact .nil

end Token

namespace Layout

open Token

theorem advance_eq_columnAfter (text : List Char) : advance 0 text = columnAfter text := by
  induction text using List.reverseRecOn with
  | nil => rfl
  | append_singleton text c ih =>
      rw [advance_append, columnAfter, List.reverse_append, List.reverse_singleton,
        List.singleton_append, List.takeWhile_cons, ih]
      by_cases hc : c = '\n'
      · simp [advance, hc]
      · simp [advance, hc, columnAfter]

theorem column_reach (state : State) (before : List Token) :
    (reach state before).column = advance state.column (chars before) := by
  induction before generalizing state with
  | nil => rfl
  | cons token rest ih =>
      rw [chars_cons, advance_append, reach, ih]
      split
      · rfl
      · rw [step_eq]
        change advance (advance (decideModule token.kind state).column _) _ = _
        rw [(column_decideModule token.kind state).1]

theorem trivia_of_fresh {state : State} {before : List Token} {last : Token}
    (hfresh : (reach state (before ++ [last])).fresh = true) : last.isTrivia = true := by
  rw [reach_append] at hfresh
  unfold reach reach at hfresh
  split at hfresh
  · assumption
  · rw [step_eq] at hfresh
    exact (Bool.and_eq_true _ _ ▸ hfresh).1

theorem content_of_closing {kind : TokenKind} (hclosing : kind.isClosingBracket = true) :
    kind.IsContent := by
  cases kind <;> first | exact ⟨TokenKind.noConfusion, rfl⟩ | cases hclosing

theorem fresh_of_semi {kind : TokenKind} {state : State} (hsemi : .semi ∈ (arrive kind state).1) :
    state.fresh = true := by
  unfold arrive at hsemi
  dsimp only at hsemi
  split at hsemi
  · next hline => exact (Bool.and_eq_true _ _ ▸ hline).2
  · rw [List.append_nil] at hsemi
    exact absurd hsemi (semi_not_mem_openPending _ _)

theorem marksAt_ends {token : Token} {marks : List TokenKind}
    (hmarks : ∀ mark ∈ marks, IsMark mark) : ∀ other ∈ marksAt token marks, other.kind ≠ .eof := by
  intro other hother
  obtain ⟨mark, hmark, rfl⟩ := List.mem_map.mp hother
  exact (hmarks mark hmark).ne_eof

theorem marked_ends (state : State) {before : List Token}
    (hends : ∀ token ∈ before, token.kind ≠ .eof) :
    ∀ token ∈ marked state before, token.kind ≠ .eof := by
  induction before generalizing state with
  | nil => exact fun _ htoken => absurd htoken List.not_mem_nil
  | cons token rest ih =>
      obtain ⟨hkind, hrest⟩ := List.forall_mem_cons.mp hends
      unfold marked
      split
      · exact List.forall_mem_cons.mpr ⟨hkind, ih _ hrest⟩
      · exact List.forall_mem_append.mpr
          ⟨marksAt_ends (step_marks token state), List.forall_mem_cons.mpr ⟨hkind, ih _ hrest⟩⟩

theorem filter_marksAt {token : Token} {marks : List TokenKind}
    (hmarks : ∀ mark ∈ marks, IsMark mark) :
    (marksAt token marks).filter (!·.isTrivia) = marksAt token marks := by
  refine List.filter_eq_self.mpr fun other hother => ?_
  obtain ⟨mark, hmark, rfl⟩ := List.mem_map.mp hother
  have htrivia : (Token.zeroWidth mark token.span.start).isTrivia = false :=
    (hmarks mark hmark).not_trivia
  rw [htrivia]
  rfl

theorem significant_marksAt {token : Token} {marks : List TokenKind}
    (hmarks : ∀ mark ∈ marks, IsMark mark) (rest : List Token) :
    significant (marksAt token marks ++ rest) = marksAt token marks ++ significant rest := by
  rw [significant_append (marksAt_ends hmarks), filter_marksAt hmarks]

theorem ends_of_scan {offset : Nat} {text : List Char} {before after : List Token} {token : Token}
    (hscan : scan offset text = before ++ token :: after) : ∀ other ∈ before, other.kind ≠ .eof := by
  obtain ⟨front, stop, heq, hfront⟩ := scan_ends offset text
  have hlength := congrArg List.length (hscan.symm.trans heq)
  simp only [List.length_append, List.length_cons, List.length_nil] at hlength
  have hinitial : before <+: front :=
    List.prefix_of_prefix_length_le ⟨_, hscan.symm⟩ ⟨_, heq.symm⟩ (by omega)
  exact fun other hother => hfront other (hinitial.subset hother)

/-- The marks in front of an item of the outermost block nest no deeper than the block. -/
theorem BeginsItem.depth_le {token : Token} {state : State} (hbegins : BeginsItem token state)
    {opening : List TokenKind} (hopening : (arrive token.kind state).1 = opening ++ [.semi])
    {middle depth : Nat} (hmiddle : middle ≤ state.contexts.length)
    (hwalk : TokenKind.walk? middle opening = some depth) : depth ≤ 1 := by
  cases depth with
  | zero => exact Nat.zero_le 1
  | succ depth =>
      have harrive : TokenKind.walk? middle (arrive token.kind state).1 = some (depth + 1) := by
        rw [hopening, TokenKind.walk?_append_of_some hwalk]
        rfl
      have hle := depth_arrive harrive hmiddle
      rwa [hbegins.outermost] at hle

/-- How the significant tokens change where a closing bracket gets a line of its own in front of an
item: two more semicolons stand around it, in the place of one. -/
structure Detour (closer : Token) (tokens others : List Token) : Prop where
  parts : ∃ front semi back otherFront semiBefore semiBehind otherBack,
    significant tokens = front ++ semi :: back ∧
    significant others = otherFront ++ semiBefore :: closer :: semiBehind :: otherBack ∧
    semi.kind = .semi ∧ semi.text = "" ∧ semi.Same semiBefore ∧ semi.Same semiBehind ∧
    List.Forall₂ Same front otherFront ∧ List.Forall₂ Same back otherBack ∧
    ∀ depth, TokenKind.walk? 0 (front.map (·.kind)) = some depth → depth ≤ 1

theorem run_detour {mode : Mode} {before after others : List Token} {token closer blank : Token}
    (hends : ∀ token ∈ before, token.kind ≠ .eof)
    (hbegins : BeginsItem token (reach (start mode) before))
    (hpending : token.kind = .leftBrace → (reach (start mode) before).pending = none)
    (hclosing : closer.kind.isClosingBracket = true) (hblank : blank.kind = .whitespace)
    (htext : blank.text =
      String.ofList ('\n' :: List.replicate (reach (start mode) before).column ' '))
    (hsame : List.Forall₂ Same (token :: after) others) :
    Detour closer (run (start mode) (before ++ token :: after))
      (run (start mode) (before ++ closer :: blank :: others)) := by
  have hearly : (reach (start mode) before).Early := (State.early_start mode).reach before
  obtain ⟨opening, closing, harrive, hstep, hstray, hagain⟩ :=
    hbegins.detour hearly hpending hclosing hblank htext
  have hmarks := step_marks token (reach (start mode) before)
  rw [hstep] at hmarks
  obtain ⟨hopening, hrest⟩ := List.forall_mem_append.mp hmarks
  obtain ⟨hsemi, hmarks⟩ := List.forall_mem_cons.mp hrest
  have hcloser : closer.kind.IsContent := content_of_closing hclosing
  have hwhite : blank.isTrivia = true := by rw [Token.isTrivia, hblank]; rfl
  have hfront : ∀ depth,
      TokenKind.walk? 0 (kindsOf (marked (start mode) before) ++ opening) = some depth →
        depth ≤ 1 := by
    intro depth hwalk
    obtain ⟨middle, hbefore, hmiddle⟩ := TokenKind.exists_walk?_of_append hwalk
    exact hbegins.depth_le harrive (depth_reach hbefore (Nat.zero_le _)) hmiddle
  cases hsame with
  | @cons _ other _ more htoken hafter =>
  have hother : other.kind.IsContent := htoken.kind ▸ hbegins.content
  rw [run_append _ hends, run_append _ hends, run_of_significant hbegins.content.2 hbegins.content.1,
    run_of_significant hcloser.2 hcloser.1, run_of_trivia hwhite,
    run_of_significant hother.2 hother.1, ← step_same htoken, hagain, hstep, hstray]
  dsimp only
  have hbefore := significant_append (marked_ends (start mode) hends)
  have hbefore : ∀ rest, significant (marked (start mode) before ++ rest) = _ := hbefore
  have hleft := hbefore (marksAt token (opening ++ .semi :: closing) ++
    token :: run (step token (reach (start mode) before)).2 after)
  have hright := hbefore (marksAt closer (opening ++ [.semi]) ++ closer :: blank ::
    (marksAt other (.semi :: closing) ++ other :: run (step token (reach (start mode) before)).2 more))
  have hlined : ∀ mark ∈ opening ++ [.semi], IsMark mark :=
    List.forall_mem_append.mpr ⟨hopening, List.forall_mem_singleton.mpr hsemi⟩
  rw [significant_marksAt (List.forall_mem_append.mpr ⟨hopening, hrest⟩),
    significant_cons hbegins.content] at hleft
  rw [significant_marksAt hlined, significant_cons hcloser, significant_cons_of_trivia hwhite,
    significant_marksAt hrest, significant_cons hother] at hright
  refine ⟨(marked (start mode) before).filter (!·.isTrivia) ++ marksAt token opening,
    zeroWidth .semi token.span.start,
    marksAt token closing ++ token :: significant (run (step token (reach (start mode) before)).2 after),
    (marked (start mode) before).filter (!·.isTrivia) ++ marksAt closer opening,
    zeroWidth .semi closer.span.start, zeroWidth .semi other.span.start,
    marksAt other closing ++ other :: significant (run (step token (reach (start mode) before)).2 more),
    ?_, ?_, rfl, rfl, ⟨rfl, rfl⟩, ⟨rfl, rfl⟩, ?_, ?_, ?_⟩
  · rw [hleft]
    simp [marksAt]
  · rw [hright]
    simp [marksAt]
  · exact List.rel_append (List.forall₂_same.mpr fun token _ => .refl token) (marksAt_same _ _ _)
  · exact List.rel_append (marksAt_same _ _ _)
      (.cons htoken (significant_same (run_same _ hafter)))
  · intro depth hwalk
    refine hfront depth ?_
    rw [List.map_append] at hwalk
    have hkinds : (marksAt token opening).map (·.kind) = opening := by
      simp [marksAt, zeroWidth, Function.comp_def]
    rwa [hkinds] at hwalk

/-- A closing bracket on a line of its own. What comes behind it keeps its column. -/
def strayLine (front : String) (c : Char) : String :=
  String.ofList (c :: '\n' :: List.replicate (columnAfter front.toList) ' ')

theorem text_detour {front rest : String} {before after : List Token} {token : Token}
    (hscan : Token.ofText (front ++ rest) = before ++ token :: after)
    (hstart : token.span.start = front.utf8ByteSize)
    (hbegins : BeginsItem token (reach (start .module) before))
    (hpending : token.kind = .leftBrace → (reach (start .module) before).pending = none) {c : Char}
    (hclosing : c = ')' ∨ c = ']') :
    ∃ kind : TokenKind, (kind = .rightParen ∨ kind = .rightBracket) ∧
      Detour (.covering kind front.utf8ByteSize (String.ofList [c]))
        (tokensOfText .default (front ++ rest))
        (tokensOfText .default (front ++ strayLine front c ++ rest)) := by
  obtain ⟨back, htext, hback⟩ := scan_split hscan (List.cons_ne_nil _ _)
  have hsize := start_of_scan hback
  have hfront : front = String.ofList (chars before) ∧ rest = String.ofList back := by
    refine Text.append_inj ?_ (by omega)
    rw [← String.ofList_append, ← htext, String.ofList_toList]
  obtain ⟨rfl, rfl⟩ := hfront
  obtain ⟨init, last, rfl⟩ : ∃ init last, before = init ++ [last] := by
    refine (List.eq_nil_or_concat' before).resolve_left ?_
    rintro rfl
    exact Bool.noConfusion (hbegins.settled (State.early_start .module))
  have hlast := trivia_of_fresh (fresh_of_semi hbegins.semi_mem)
  have hcolumn : (reach (start .module) (init ++ [last])).column =
      columnAfter (chars (init ++ [last])) := by
    rw [column_reach, ← advance_eq_columnAfter]
    rfl
  have hends := ends_of_scan hscan
  have hsplit := hscan
  rw [List.append_assoc] at hsplit
  obtain ⟨others, kind, offset, more, hothers, hstray, hkind, rfl, hsame⟩ :=
    scan_stray hsplit hlast hbegins.content hclosing (columnAfter (chars (init ++ [last])))
  refine ⟨kind, hkind, ?_⟩
  obtain rfl : back = others := List.append_cancel_left (htext.symm.trans hothers)
  have hlist : (String.ofList (chars (init ++ [last])) ++
      strayLine (String.ofList (chars (init ++ [last]))) c ++ String.ofList back).toList =
        chars (init ++ [last]) ++ c :: '\n' ::
          List.replicate (columnAfter (chars (init ++ [last]))) ' ' ++ back := by
    simp [strayLine]
  have hother : Token.ofText _ = _ :=
    (congrArg (scan 0) hlist).trans (hstray.trans (List.append_cons init last _))
  unfold tokensOfText insertMarks
  rw [hscan, hother]
  have hbracket : kind.isClosingBracket = true := by rcases hkind with rfl | rfl <;> rfl
  exact run_detour hends hbegins hpending hbracket rfl
    (congrArg (fun column => String.ofList ('\n' :: List.replicate column ' ')) hcolumn.symm) hsame

end Layout

end LosslessTree
