import LosslessTree.Proofs.Descent.States
import LosslessTree.Proofs.Parse.Foresight

/-!
A choice looks no further than its window. Where the tokens agree, words stand at the same indices;
so two states there come to two states over words that agree, and trials get equally far.
-/

namespace LosslessTree

namespace Tape

variable {tape : Tape}

theorem take_indexOf {position : Nat} (hposition : position ≤ tape.words.size) :
    tape.tokens.toList.take (tape.words.indexOf position) =
      tape.words.leading ++ tape.words.between 0 position := by
  rw [← tokens_words, ← Stream.between_append (Nat.zero_le position) hposition,
    ← List.append_assoc, Stream.indexOf, List.take_left]

theorem countP_indexOf {position : Nat} (hposition : position ≤ tape.words.size) :
    (tape.tokens.toList.take (tape.words.indexOf position)).countP (!·.isTrivia) = position := by
  have hgrouped : tape.words.Grouped := grouped_words
  have hblank : ∀ {tokens : List Token}, (∀ token ∈ tokens, token.isTrivia = true) →
      tokens.countP (!·.isTrivia) = 0 := by
    intro tokens htrivia
    rw [List.countP_eq_zero]
    intro token htoken
    simp [htrivia token htoken]
  rw [take_indexOf hposition, List.countP_append, hblank hgrouped.leading, Nat.zero_add]
  induction position with
  | zero => simp
  | succ position ih =>
      have hword := Array.getElem?_eq_getElem hposition
      have hmem := Array.getElem_mem hposition
      rw [← Stream.between_append (Nat.zero_le position) (Nat.le_succ position),
        List.countP_append, ih (Nat.le_of_succ_le hposition), Stream.between_succ hword,
        Word.tokens, List.countP_cons_of_pos (by simp [hgrouped.token _ hmem]),
        hblank (hgrouped.trivia _ hmem)]

def AgreeBefore (left right : Tape) (limit : Nat) : Prop :=
  List.Forall₂ Token.Same (left.tokens.toList.take limit) (right.tokens.toList.take limit)

namespace AgreeBefore

variable {left right : Tape} {limit : Nat} (hagree : left.AgreeBefore right limit)

include hagree

theorem countP_eq {index : Nat} (hindex : index ≤ limit) :
    (left.tokens.toList.take index).countP (!·.isTrivia) =
      (right.tokens.toList.take index).countP (!·.isTrivia) := by
  have hfront := List.forall₂_take index hagree
  rw [List.take_take, List.take_take, Nat.min_eq_left hindex] at hfront
  exact Token.countP_same hfront

theorem same {index : Nat} (hindex : index < limit) (hleft : limit ≤ left.size)
    (hright : limit ≤ right.size) : (left.tokenAt index).Same (right.tokenAt index) := by
  have hget {tape : Tape} (hsize : limit ≤ tape.size) :
      (tape.tokens.toList.take limit)[index]? = some (tape.tokenAt index) := by
    have htoken := Array.getElem?_eq_getElem (Nat.lt_of_lt_of_le hindex hsize)
    rw [List.getElem?_take_of_lt hindex, Array.getElem?_toList, tokenAt, htoken]
  obtain ⟨hlt, heq⟩ := List.getElem?_eq_some_iff.mp (hget hleft)
  obtain ⟨hother, hotherEq⟩ := List.getElem?_eq_some_iff.mp (hget hright)
  have hsame := hagree.get hlt hother
  rwa [List.get_eq_getElem, List.get_eq_getElem, heq, hotherEq] at hsame

theorem position_eq {position other : Nat} (hposition : position ≤ left.words.size)
    (hother : other ≤ right.words.size) (hlimit : left.words.indexOf position ≤ limit)
    (hindex : left.words.indexOf position = right.words.indexOf other) : position = other := by
  rw [← countP_indexOf hposition, hagree.countP_eq hlimit, hindex, countP_indexOf hother]

variable {leftLimit rightLimit : Nat} (hleft : left.words.indexOf leftLimit = limit)
  (hright : right.words.indexOf rightLimit = limit) (hleftSize : leftLimit ≤ left.words.size)

include hleft hright hleftSize

theorem indexOf_eq {position : Nat} (hposition : position ≤ leftLimit) :
    left.words.indexOf position = right.words.indexOf position := by
  have hle : left.words.indexOf position ≤ limit := hleft ▸ Stream.indexOf_le hposition
  have hsolid : right.Solid (left.words.indexOf position) := by
    refine ⟨Nat.le_trans hle (hright ▸ indexOf_le_size rightLimit), fun hlt => ?_⟩
    -- At the limit itself the right tokens may be others, but a word or the end is there as well.
    rcases Nat.eq_or_lt_of_le hle with heq | hbefore
    · rw [heq, ← hright] at hlt ⊢
      exact (solid_indexOf rightLimit).significant hlt
    · have hsame := hagree.same hbefore (hleft ▸ indexOf_le_size leftLimit)
        (hright ▸ indexOf_le_size rightLimit)
      rw [← hsame.isTrivia_eq]
      refine (solid_indexOf position).significant (Nat.lt_of_lt_of_le hbefore ?_)
      exact hleft ▸ indexOf_le_size leftLimit
  obtain ⟨other, hother, heq⟩ := hsolid.exists_indexOf
  rw [heq, hagree.position_eq (Nat.le_trans hposition hleftSize) hother hle heq]

theorem limit_eq (hrightSize : rightLimit ≤ right.words.size) : leftLimit = rightLimit :=
  hagree.position_eq hleftSize hrightSize (Nat.le_of_eq hleft) (hleft.trans hright.symm)

theorem tokenAt_same {position : Nat} (hposition : position < leftLimit) :
    (left.words.tokenAt position).Same (right.words.tokenAt position) := by
  have hindex := hagree.indexOf_eq hleft hright hleftSize (Nat.le_of_lt hposition)
  rw [← tokenAt_indexOf, ← tokenAt_indexOf, ← hindex]
  refine hagree.same ?_ (hleft ▸ indexOf_le_size leftLimit) (hright ▸ indexOf_le_size rightLimit)
  rw [← hleft]
  exact Stream.indexOf_lt hposition hleftSize

end AgreeBefore

end Tape

namespace Descent

open Grammar

def chosen? (enter : Enter) (session : Session) (candidates : List Part) (recovery : Lookahead)
    (state : State) : Option Part :=
  (tryAll enter session candidates recovery state).best.map (·.part)

/-- What comes of taking an alternative. What its trial left behind is kept if it may be, and
otherwise the alternative is parsed again. -/
def Takes (enter : Enter) (session : Session) (recovery : Lookahead) (state : State) (part : Part)
    (after : State) : Prop :=
  ∃ touched, after =
    match (Best.of session state.checkpoint (windowEnd session state) state.horizon part
      (trial enter session recovery state part)).stash with
    | some stash => stash.resume { state with touched }
    | none => element enter session part recovery { state with touched }

variable {session : Session} {enter : Enter} {words : Parse.Enter} {base : Base} {state : State}
  {other : Parse.State}

section

variable (henter : Follows session enter words) (hmirrors : Mirrors session base state other)
  {recovery : Lookahead}

include henter hmirrors

theorem speculate_takes {candidates : List Part} {part : Part}
    (hchosen : chosen? enter session candidates recovery state = some part) :
    Takes enter session recovery state part
      (speculate enter session candidates recovery state) := by
  cases candidates with
  | nil => cases hchosen
  | cons first rest =>
      obtain ⟨⟨horizon, seen, hstate⟩, -, hbest, htouched⟩ :=
        tried_tryAll henter hmirrors recovery first rest
      rw [chosen?, hbest, Option.map_some, Option.some_inj] at hchosen
      obtain rfl : _ = part := hchosen
      refine ⟨state.touched || (tryAll enter session (first :: rest) recovery state).touched, ?_⟩
      rw [speculate, Trials.settle, hstate, hbest]
      rfl

theorem chosen?_words (first : Part) (rest : List Part) :
    chosen? enter session (first :: rest) recovery state =
      some (Parse.best other (first, Parse.attempt words session.words recovery other first)
        (rest.map fun part => (part, Parse.attempt words session.words recovery other part))).1 := by
  rw [chosen?, (tried_tryAll henter hmirrors recovery first rest).best]
  rfl

end

/-! ## Two states in front of the same tokens -/

section

variable {left right : Session} {limit : Nat} (hagree : left.tape.AgreeBefore right.tape limit)
  {leftBase rightBase : Base} {state other : State} {gist otherGist : Parse.State}
  (hleft : Mirrors left leftBase state gist) (hright : Mirrors right rightBase other otherGist)
  (hlimit : windowEnd left state = limit) (hother : windowEnd right other = limit)

include hagree hleft hright hlimit hother

theorem windowEnd_eq :
    Parse.windowEnd left.words gist = Parse.windowEnd right.words otherGist :=
  hagree.limit_eq (hleft.windowEnd.symm.trans hlimit) (hright.windowEnd.symm.trans hother)
    hleft.windowEnd_le_size hright.windowEnd_le_size

theorem indexOf_agree {position : Nat} (hposition : position ≤ Parse.windowEnd left.words gist) :
    left.tape.words.indexOf position = right.tape.words.indexOf position :=
  hagree.indexOf_eq (hleft.windowEnd.symm.trans hlimit) (hright.windowEnd.symm.trans hother)
    hleft.windowEnd_le_size hposition

omit hother in
theorem position_agree (hindex : state.index = other.index) :
    gist.position = otherGist.position := by
  refine hagree.position_eq hleft.position_le_size hright.position_le_size ?_
    (hleft.index.symm.trans (hindex.trans hright.index))
  rw [← hlimit, hleft.windowEnd]
  exact Stream.indexOf_le hleft.position_le_windowEnd

theorem lastReport_agree (hindex : state.index = other.index)
    (hlast : state.diagnostics.back?.map (·.index) = other.diagnostics.back?.map (·.index))
    (hreport : ∀ position ∈ gist.lastReport, position ≤ gist.position)
    (hotherReport : ∀ position ∈ otherGist.lastReport, position ≤ otherGist.position) :
    gist.lastReport = otherGist.lastReport := by
  have hposition := position_agree hagree hleft hright hlimit hindex
  have hsame {position : Nat} (hle : position ≤ gist.position) :
      gist.lastReport = some position ↔ otherGist.lastReport = some position := by
    have hwithin := Nat.le_trans hle hleft.position_le_windowEnd
    have hleftSize := Nat.le_trans hle hleft.position_le_size
    have hrightSize := Nat.le_trans (hposition ▸ hle) hright.position_le_size
    rw [← hleft.last position hleftSize, ← hright.last position hrightSize, hlast,
      indexOf_agree hagree hleft hright hlimit hother hwithin]
  ext position
  constructor
  · intro hmem
    exact (hsame (hreport position hmem)).mp hmem
  · intro hmem
    exact (hsame (hposition ▸ hotherReport position hmem)).mpr hmem

/-- Trials of equal rank over words have equal ranks over tokens. -/
theorem rank_agree (hindex : state.index = other.index) {rank otherRank wordRank : Rank}
    (hrank : Ranked left.tape.words (Parse.windowEnd left.words gist) gist.position rank wordRank)
    (hotherRank : Ranked right.tape.words (Parse.windowEnd right.words otherGist)
      otherGist.position otherRank wordRank) : rank = otherRank := by
  have hposition := position_agree hagree hleft hright hlimit hindex
  have hindices {position : Nat} (hle : position ≤ Parse.windowEnd left.words gist) :
      left.tape.words.indexOf position = right.tape.words.indexOf position :=
    indexOf_agree hagree hleft hright hlimit hother hle
  have hstart := hindices hleft.position_le_windowEnd
  obtain ⟨⟨place, hplace, hprogress, hword⟩, herror⟩ := hrank
  obtain ⟨⟨otherPlace, -, hotherProgress, hotherWord⟩, hotherError⟩ := hotherRank
  rw [← hposition] at hotherProgress hotherWord
  have heq : rank.progress = otherRank.progress := by
    rcases Nat.lt_or_ge gist.position place with hlt | hge
    · obtain rfl : otherPlace = place := by omega
      rw [hprogress, hotherProgress, hindices hplace, hstart]
    · have hbehind := left.tape.words.indexOf_le hge
      have hotherBehind := right.tape.words.indexOf_le
        (show otherPlace ≤ gist.position by omega)
      omega
  obtain ⟨progress, errorFree⟩ := rank
  obtain ⟨otherProgress, otherErrorFree⟩ := otherRank
  simp only at heq herror hotherError
  rw [heq, herror, hotherError]

theorem words_agree (hgrammar : right.grammar = left.grammar)
    (hwindow : right.window = left.window) (hfinal : left.tape.final.kind = .eof)
    (hotherFinal : right.tape.final.kind = .eof) :
    Parse.AgreeBefore left.words right.words (Parse.windowEnd left.words gist) where
  grammar := hgrammar
  window := hwindow
  leftSize := hleft.windowEnd_le_size
  rightSize := by
    rw [windowEnd_eq hagree hleft hright hlimit hother]
    exact hright.windowEnd_le_size
  token _ hposition := hagree.tokenAt_same (hleft.windowEnd.symm.trans hlimit)
    (hright.windowEnd.symm.trans hother) hleft.windowEnd_le_size hposition
  leftFinal := hfinal
  rightFinal := hotherFinal

end

theorem countP_window (hmirrors : Mirrors session base state other) :
    ((session.tape.tokens.toList.take (windowEnd session state)).drop state.index).countP
      (!·.isTrivia) ≤ session.window := by
  have hlimit := Tape.countP_indexOf hmirrors.windowEnd_le_size
  have hposition := Tape.countP_indexOf hmirrors.position_le_size
  have hindex : state.index ≤ windowEnd session state := by
    rw [hmirrors.windowEnd, hmirrors.index]
    exact Stream.indexOf_le hmirrors.position_le_windowEnd
  have hwindow : Parse.windowEnd session.words other ≤ other.position + session.window :=
    Nat.le_trans (Nat.min_le_left _ _) (Nat.min_le_left _ _)
  rw [← hmirrors.windowEnd] at hlimit
  rw [← hmirrors.index, ← Nat.min_eq_left hindex, ← List.take_take] at hposition
  rw [← List.take_append_drop state.index (session.tape.tokens.toList.take _), List.countP_append,
    hposition] at hlimit
  omega

/-- Terms of two kinds that begin alike. -/
def pairing : Rules :=
  [(.construct .typeTerm,
      [.oneOf [.node (.construct .listType), .node (.construct .simpleType)]]),
    (.construct .listType, [.all [.token .varId, .token .comma, .token .varId]]),
    (.construct .simpleType, [.all [.token .varId, .token .conId]])]

/-- A pair, of which a window of two significant tokens shows the front. -/
def pairTokens : List Token :=
  [.covering .varId 0 "a", .covering .whitespace 1 " ", .covering .comma 2 ",",
    .covering .whitespace 3 " ", .covering .varId 4 "b"]

def halfTokens : List Token :=
  [.covering .varId 0 "a", .covering .whitespace 1 " ", .covering .comma 2 ",",
    .covering .whitespace 3 " "]

/-- A choice looks no further than its window: states at one place, in front of tokens that say the
same up to the end of the window, give every alternative the same rank and take the same one. Behind
the window the tokens may go on in any way, or end. -/
theorem choice_depends_on_window (grammar : Grammar) (settings : Settings)
    {tokens others : List Token} {limit : Nat} {state other : State}
    (hstate : state.Stands (.of grammar settings tokens))
    (hotherState : other.Stands (.of grammar settings others))
    (hlimit : windowEnd (.of grammar settings tokens) state = limit)
    (hother : windowEnd (.of grammar settings others) other = limit)
    (hindex : state.index = other.index)
    (hlast : state.diagnostics.back?.map (·.index) = other.diagnostics.back?.map (·.index))
    (hagree : List.Forall₂ Token.Same ((tokens.takeWhile (·.kind != .eof)).take limit)
      ((others.takeWhile (·.kind != .eof)).take limit))
    (levels : Nat) (candidates : List Part) (recovery : Lookahead) :
    let left := Session.of grammar settings tokens
    let right := Session.of grammar settings others
    (((tokens.takeWhile (·.kind != .eof)).take limit).drop state.index).countP (!·.isTrivia) ≤
        max settings.backtrackLimit 1 ∧
      (∀ part ∈ candidates,
        (trial (node left levels) left recovery state part).rank state.checkpoint =
          (trial (node right levels) right recovery other part).rank other.checkpoint) ∧
      chosen? (node left levels) left candidates recovery state =
        chosen? (node right levels) right candidates recovery other ∧
      ∀ part, chosen? (node left levels) left candidates recovery state = some part →
        Takes (node left levels) left recovery state part
            (speculate (node left levels) left candidates recovery state) ∧
          Takes (node right levels) right recovery other part
            (speculate (node right levels) right candidates recovery other) := by
  intro left right
  have hwindow : 0 < left.window := Parse.Session.window_pos grammar settings tokens
  have hagree : left.tape.AgreeBefore right.tape limit := hagree
  have hotherWindow : 0 < right.window := hwindow
  have hfinal : left.tape.final.kind = .eof := Stream.final_ofTokens tokens
  have hend : right.tape.final.kind = .eof := Stream.final_ofTokens others
  have hleftEnter : Follows left (node left levels) (Parse.node left.words levels) :=
    follows_node hfinal hwindow levels
  have hrightEnter : Follows right (node right levels) (Parse.node right.words levels) :=
    follows_node hend hotherWindow levels
  obtain ⟨base, gist, hleft, hreport⟩ := hstate.exists_mirrors
  obtain ⟨otherBase, otherGist, hright, hotherReport⟩ := hotherState.exists_mirrors
  have hwords (part : Part) := Parse.rank_eq_of_agree
    (words_agree hagree hleft hright hlimit hother rfl rfl hfinal hend) hwindow rfl
    (windowEnd_eq hagree hleft hright hlimit hother).symm
    (position_agree hagree hleft hright hlimit hindex)
    (lastReport_agree hagree hleft hright hlimit hother hindex hlast hreport hotherReport)
    levels recovery part
  have hchosen : chosen? (node left levels) left candidates recovery state =
      chosen? (node right levels) right candidates recovery other := by
    cases candidates with
    | nil => rfl
    | cons first rest =>
        rw [chosen?_words hleftEnter hleft, chosen?_words hrightEnter hright]
        obtain ⟨winner, -, hbest, hotherBest⟩ := Parse.best_parallel first rest
          fun part _ => hwords part
        rw [hbest, hotherBest]
  refine ⟨hlimit ▸ countP_window hleft, fun part _ => ?_, hchosen, fun part hpart =>
    ⟨speculate_takes hleftEnter hleft hpart, speculate_takes hrightEnter hright (hchosen ▸ hpart)⟩⟩
  have hrank := ranked_trial (mirrors_trial hleftEnter hleft recovery part) hleft
  have hotherRank := ranked_trial (mirrors_trial hrightEnter hright recovery part) hright
  rw [← hwords part] at hotherRank
  exact rank_agree hagree hleft hright hlimit hother hindex hrank hotherRank

theorem choice_depends_on_window_of_pairing :
    let candidates := (compile pairing).parts.take 2
    let left := Session.of (compile pairing) ⟨2, .none⟩ pairTokens
    let right := Session.of (compile pairing) ⟨2, .none⟩ halfTokens
    let state := State.entrance left (.construct .typeTerm)
    let other := State.entrance right (.construct .typeTerm)
    (((pairTokens.takeWhile (·.kind != .eof)).take 4).drop state.index).countP (!·.isTrivia) ≤
        max 2 1 ∧
      (∀ part ∈ candidates,
        (trial (node left 3) left .empty state part).rank state.checkpoint =
          (trial (node right 3) right .empty other part).rank other.checkpoint) ∧
      chosen? (node left 3) left candidates .empty state =
        chosen? (node right 3) right candidates .empty other ∧
      ∀ part, chosen? (node left 3) left candidates .empty state = some part →
        Takes (node left 3) left .empty state part
            (speculate (node left 3) left candidates .empty state) ∧
          Takes (node right 3) right .empty other part
            (speculate (node right 3) right candidates .empty other) := by
  intro candidates left right state other
  have hlimit : windowEnd left state = 4 := by decide +kernel
  have hother : windowEnd right other = 4 := by decide +kernel
  have hagree : List.Forall₂ Token.Same ((pairTokens.takeWhile (·.kind != .eof)).take 4)
      ((halfTokens.takeWhile (·.kind != .eof)).take 4) :=
    .cons (.refl _) (.cons (.refl _) (.cons (.refl _) (.cons (.refl _) .nil)))
  exact choice_depends_on_window (compile pairing) ⟨2, .none⟩
    (mirrors_entrance left _).stands (mirrors_entrance right _).stands hlimit hother
    (by decide +kernel) (by decide +kernel) hagree 3 candidates .empty

end Descent

end LosslessTree
