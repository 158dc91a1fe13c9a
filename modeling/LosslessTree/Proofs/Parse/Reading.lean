import LosslessTree.Proofs.Grammar.Prediction
import LosslessTree.Proofs.Parse.Acceptance
import LosslessTree.Proofs.Parse.Significance

/-!
What a stretch of a parse has read. The contents of the tokens in front are compared with those to
come, and the outlines of what was built with the ones that were due.
-/

namespace LosslessTree

namespace Parse

open Grammar

def Session.ahead (session : Session) (position : Nat) : List Content :=
  (session.stream.words.toList.drop position).map (·.token.content)

/-- These contents are in front, and all of them are within the horizon. -/
structure State.Faces (session : Session) (contents : List Content) (state : State) : Prop where
  horizon : state.horizon = session.stream.size
  ahead : session.ahead state.position = contents

variable {session : Session}

namespace State.Faces

variable {state : State} {content : Content} {contents more : List Content}

theorem word (hfaces : state.Faces session (content :: more)) :
    ∃ word, session.stream.words[state.position]? = some word ∧ word.token.content = content ∧
      session.ahead (state.position + 1) = more := by
  have hahead := hfaces.ahead
  unfold Session.ahead at hahead ⊢
  cases hdrop : session.stream.words.toList.drop state.position with
  | nil =>
      rw [hdrop] at hahead
      cases hahead
  | cons word words =>
      rw [hdrop, List.map_cons] at hahead
      obtain ⟨hcontent, hmore⟩ := List.cons.inj hahead
      refine ⟨word, ?_, hcontent, ?_⟩
      · rw [← Array.getElem?_toList, ← List.head?_drop, hdrop, List.head?_cons]
      · rw [← hmore, ← List.tail_drop, hdrop, List.tail_cons]

theorem inside (hfaces : state.Faces session (content :: more)) :
    state.position < state.horizon := by
  obtain ⟨word, hword, -, -⟩ := hfaces.word
  rw [hfaces.horizon]
  exact (Array.getElem?_eq_some_iff.mp hword).1

theorem current (hfaces : state.Faces session (content :: more)) :
    (state.current session).content = content := by
  obtain ⟨word, hword, hcontent, -⟩ := hfaces.word
  rw [State.current_of_ahead hfaces.inside, Stream.tokenAt_eq hword, hcontent]

theorem kind (hfaces : state.Faces session (content :: more)) :
    (state.current session).kind = content.1 := congrArg Prod.fst hfaces.current

theorem admits (hfaces : state.Faces session (content :: more)) (set : Lookahead) :
    set.admits (state.current session) = set.offers content := by
  rw [Lookahead.admits_eq_offers, hfaces.current]

theorem at_end (hfinal : session.stream.final.kind = .eof) (hfaces : state.Faces session []) :
    (state.current session).kind = .eof := by
  have hlength := congrArg List.length hfaces.ahead
  simp only [Session.ahead, List.length_map, List.length_drop, List.length_nil] at hlength
  have hbehind : ¬state.position < state.horizon := by
    rw [hfaces.horizon, Stream.size, ← Array.length_toList]
    omega
  rw [State.current, if_neg hbehind, hfinal]

theorem not_at_end (hsignificant : session.stream.Significant)
    (hfaces : state.Faces session (content :: more)) :
    (state.current session).kind ≠ .eof := by
  have hinside := hfaces.inside
  rw [State.current_of_ahead hinside]
  exact hsignificant _ (hfaces.horizon ▸ hinside)

theorem bump (hfaces : state.Faces session (content :: more)) :
    state.bump.Faces session more := by
  obtain ⟨-, -, -, hmore⟩ := hfaces.word
  rw [State.bump_of_ahead hfaces.inside]
  exact ⟨hfaces.horizon, hmore⟩

theorem touch (hfaces : state.Faces session contents) (touched : Bool) :
    State.Faces session contents { state with touched } := ⟨hfaces.horizon, hfaces.ahead⟩

theorem look (hfaces : state.Faces session contents) :
    (state.look session).Faces session contents := by
  rw [State.look_eq]
  exact hfaces.touch _

end State.Faces

/-- Some outlines have been read, and what comes behind them is in front. -/
structure Reads (session : Session) (outlines : List (Outline String)) (rest : List Content)
    (before after : State) : Prop where
  built : ∃ shapes, after.built = shapes.reverse ++ before.built ∧
    Shape.outlines session.stream id shapes = outlines
  faces : after.Faces session rest
  reports : after.reports = before.reports

namespace Reads

variable {outlines others : List (Outline String)} {contents rest : List Content}
  {before middle after state : State}

theorem nothing (hfaces : state.Faces session rest) : Reads session [] rest state state :=
  ⟨⟨[], rfl, rfl⟩, hfaces, rfl⟩

theorem append (hfirst : Reads session outlines contents before middle)
    (hsecond : Reads session others rest middle after) :
    Reads session (outlines ++ others) rest before after where
  built := by
    obtain ⟨shapes, hshapes, houtlines⟩ := hfirst.built
    obtain ⟨more, hmore, hothers⟩ := hsecond.built
    refine ⟨shapes ++ more, ?_, ?_⟩
    · rw [hmore, hshapes, List.reverse_append, List.append_assoc]
    · rw [Shape.outlines_eq_map] at houtlines hothers ⊢
      rw [List.map_append, houtlines, hothers]
  faces := hsecond.faces
  reports := hsecond.reports.trans hfirst.reports

theorem after_touch {touched : Bool}
    (hreads : Reads session outlines rest { state with touched } after) :
    Reads session outlines rest state after := ⟨hreads.built, hreads.faces, hreads.reports⟩

theorem after_look (hreads : Reads session outlines rest (state.look session) after) :
    Reads session outlines rest state after := by
  rw [State.look_eq] at hreads
  exact hreads.after_touch

theorem moves (hreads : Reads session outlines rest before after)
    (hfaces : before.Faces session (contents ++ rest)) (hsome : contents ≠ []) :
    after.position ≠ before.position := by
  intro hstill
  have hahead := hreads.faces.ahead
  rw [hstill, hfaces.ahead] at hahead
  exact hsome (List.append_cancel_right (hahead : contents ++ rest = [] ++ rest))

theorem bump {content : Content} (hfaces : state.Faces session (content :: rest)) :
    Reads session [.leaf content.1 content.2] rest state state.bump where
  built := by
    obtain ⟨word, hword, hcontent, -⟩ := hfaces.word
    refine ⟨[.token state.position], ?_, ?_⟩
    · rw [State.bump_of_ahead hfaces.inside]
      rfl
    · rw [Shape.outlines, Shape.outline, Stream.tokenAt_eq hword, ← hcontent]
      rfl
  faces := hfaces.bump
  reports := by rw [State.bump_of_ahead hfaces.inside]

theorem nest {inner : State} {kind : NodeKind}
    (hreads : Reads session outlines rest { state with built := [] } inner) :
    Reads session [.node kind none outlines] rest state
      { inner with built := .node kind state.position inner.built.reverse :: state.built } where
  built := by
    obtain ⟨shapes, hshapes, houtlines⟩ := hreads.built
    refine ⟨[.node kind state.position inner.built.reverse], rfl, ?_⟩
    rw [Shape.outlines, Shape.outline, hshapes, List.append_nil, List.reverse_reverse, houtlines]
    rfl
  faces := ⟨hreads.faces.horizon, hreads.faces.ahead⟩
  reports := hreads.reports

end Reads

end Parse

end LosslessTree
