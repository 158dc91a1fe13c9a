import LosslessTree.Proofs.Grammar.Exactness
import LosslessTree.Proofs.Parse.Following
import LosslessTree.Proofs.Parse.Rounds

/-!
Parsing goes forward wherever the token in front may begin what comes next. A kind begins as its
rule does, so down to the last level each step finds something that the token fits.
-/

namespace LosslessTree

namespace Grammar

end Grammar

namespace Parse

open Grammar

variable {session : Session} {before middle after : State}

structure Onward (before after : State) : Prop where
  position : before.position ≤ after.position
  horizon : after.horizon = before.horizon

theorem Onward.current_eq (honward : Onward before after)
    (hposition : after.position = before.position) :
    after.current session = before.current session := by
  rw [State.current, State.current, hposition, honward.horizon]

/-- If the first of two steps stays where it is, the second one sees the same token. -/
theorem Onward.lt_trans (session : Session) (hfirst : Onward before middle)
    (hsecond : Onward middle after)
    (hstay : middle.current session = before.current session → middle.position < after.position) :
    before.position < after.position := by
  rcases Nat.eq_or_lt_of_le hfirst.position with heq | hlt
  · rw [heq]
    exact hstay (hfirst.current_eq heq.symm)
  · exact Nat.lt_of_lt_of_le hlt hsecond.position

/-- What parsing the nodes below does where the token in front may begin them. -/
structure Advances (session : Session) (rules : Rules) (enter : Enter) : Prop where
  onward {kind : NodeKind} : session.grammar.Mentions kind → ∀ recovery state,
    Onward state (enter .actual kind recovery state)
  lt {kind : NodeKind} {recovery : Lookahead} {state : State} : session.grammar.Mentions kind →
    ((Rules.analyse rules).facts kind).first.admits (state.current session) = true →
      (state.current session).kind ≠ .eof →
        state.position < (enter .actual kind recovery state).position

section

variable {rules : Rules} {enter : Enter} (hbuild : build rules = .ok session.grammar)
  (hfinal : session.stream.final.kind = .eof) (hadvances : Advances session rules enter)
  {state : State}

include hbuild hfinal hadvances

variable (hreuse : session.reuse = false) {place : Place} (hplace : session.grammar.Has place)

include hreuse hplace

omit hplace

end

variable {rules : Rules} (hbuild : build rules = .ok session.grammar)
  (hfinal : session.stream.final.kind = .eof) (hreuse : session.reuse = false)

include hbuild hfinal hreuse

end Parse

end LosslessTree
