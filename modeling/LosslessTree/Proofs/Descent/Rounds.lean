import LosslessTree.Proofs.Descent.Slots

/-!
Repetitions on tokens go round by round as those on words do. They come to an end by themselves, so
neither bound on the rounds cuts a repetition short, though there are more tokens than words.
-/

namespace LosslessTree

namespace Descent

open Grammar

inductive Round where
  | ended (state : State) (found : Bool)
  | goesOn (expecting found : Bool) (state : State)

/-- A round of a repetition: its end, or a separator, a match or an error with which it goes on. -/
def roundOf (enter : Enter) (session : Session) (place : Place) (follow recovery : Lookahead)
    (expecting found : Bool) (state : State) : Round :=
  let state := state.look session
  let token := state.current session
  if token.kind == .eof then .ended state found
  else if place.slot.separator == some token.kind && !expecting then
    .goesOn true found (state.bump session)
  else if place.first.admits token && expecting then
    let next := once enter session place recovery state
    if next.index = state.index then .ended next true
    else .goesOn place.slot.separator.isNone true next
  else if follow.admits token then .ended state found
  else .goesOn expecting found (state.skip session recovery none)

/-- A repetition goes on round by round, however many it takes, and comes to an end. -/
inductive Repeats (enter : Enter) (session : Session) (place : Place)
    (follow recovery : Lookahead) : (expecting found : Bool) → State → State × Bool → Prop where
  | ended {expecting found matched : Bool} {state after : State}
      (hround : roundOf enter session place follow recovery expecting found state =
        .ended after matched) :
      Repeats enter session place follow recovery expecting found state (after, matched)
  | goesOn {expecting found nextExpecting nextFound : Bool} {state next : State}
      {result : State × Bool}
      (hround : roundOf enter session place follow recovery expecting found state =
        .goesOn nextExpecting nextFound next)
      (hrest : Repeats enter session place follow recovery nextExpecting nextFound next result) :
      Repeats enter session place follow recovery expecting found state result

theorem matchAll_succ {enter : Enter} {session : Session} {place : Place}
    (follow recovery : Lookahead) (rounds : Nat) (expecting found : Bool) (state : State) :
    matchAll enter session place follow recovery (rounds + 1) expecting found state =
      match roundOf enter session place follow recovery expecting found state with
      | .ended state found => (state, found)
      | .goesOn expecting found state =>
        matchAll enter session place follow recovery rounds expecting found state := by
  rw [matchAll, roundOf]
  dsimp only
  split
  · rfl
  · split
    · rfl
    · split
      · split <;> rfl
      · split <;> rfl

variable {session : Session} {base : Base}

/-- A round on tokens, and the round on words that it comes to. -/
inductive RoundMirrors (session : Session) (base : Base) : Round → Parse.Round → Prop where
  | ended {state : State} {other : Parse.State} (hmirrors : Mirrors session base state other)
      (found : Bool) : RoundMirrors session base (.ended state found) (.ended other found)
  | goesOn {state : State} {other : Parse.State} (hmirrors : Mirrors session base state other)
      (expecting found : Bool) :
      RoundMirrors session base (.goesOn expecting found state) (.goesOn expecting found other)

section

variable {enter : Enter} {words : Parse.Enter} (henter : Follows session enter words)
  (hfinal : session.tape.final.kind = .eof)

include henter hfinal

theorem Mirrors.round {state : State} {other : Parse.State}
    (hmirrors : Mirrors session base state other) (place : Place) (follow recovery : Lookahead)
    (expecting found : Bool) :
    RoundMirrors session base
      (roundOf enter session place follow recovery expecting found state)
      (Parse.roundOf words session.words (modeOf base.trials) place follow recovery expecting found
        other) := by
  have hlook := hmirrors.look
  simp only [roundOf, Parse.roundOf, hlook.current]
  split
  · exact .ended hlook found
  · next hend =>
      split
      · exact .goesOn hlook.bump true found
      · split
        · have honce := hlook.once henter hfinal place recovery
          rw [honce.index, hlook.index]
          simp only [Stream.indexOf_inj honce.position_le_size hlook.position_le_size]
          split
          · exact .ended honce true
          · exact .goesOn honce _ true
        · split
          · exact .ended hlook found
          · refine .goesOn (hlook.skip_of_current hfinal ?_ recovery) expecting found
            simpa using hend

theorem Mirrors.matchAll {state : State} {other : Parse.State}
    (hmirrors : Mirrors session base state other) (place : Place) (follow recovery : Lookahead)
    (rounds : Nat) (expecting found : Bool) :
    let outcome := matchAll enter session place follow recovery rounds expecting found state
    let gist := Parse.matchAll words session.words (modeOf base.trials) place follow recovery rounds
      expecting found other
    Mirrors session base outcome.1 gist.1 ∧ outcome.2 = gist.2 := by
  induction rounds generalizing state other expecting found with
  | zero => exact ⟨hmirrors, rfl⟩
  | succ rounds ih =>
      have hround := hmirrors.round henter hfinal place follow recovery expecting found
      rw [matchAll_succ, Parse.matchAll_succ]
      revert hround
      generalize roundOf enter session place follow recovery expecting found state = round
      generalize Parse.roundOf words session.words (modeOf base.trials) place follow recovery
        expecting found other = otherRound
      intro hround
      cases hround with
      | ended hafter found => exact ⟨hafter, rfl⟩
      | goesOn hnext expecting found => exact ih hnext expecting found

end

theorem Mirrors.gap_lt {state : State} {other : Parse.State}
    (hmirrors : Mirrors session base state other) :
    other.gap < session.tape.size - state.index + 1 := by
  obtain ⟨gap, hgap⟩ := Nat.exists_eq_add_of_le hmirrors.position_le
  have hsize := hmirrors.horizon_le_size
  have htokens : session.tape.words.indexOf other.position + gap ≤
      session.tape.words.indexOf (other.position + gap) :=
    Stream.indexOf_add_le (hgap ▸ hsize)
  have hbound : session.tape.words.indexOf (other.position + gap) ≤ session.tape.size :=
    Tape.indexOf_le_size _
  rw [Parse.State.gap, hmirrors.index]
  omega

section

variable {levels : Nat} {enter : Enter}
  (henter : Follows session enter (Parse.node session.words levels))
  (hfinal : session.tape.final.kind = .eof) (hwindow : 0 < session.window) {place : Place}
  (hparts : ∀ part ∈ place.parts, part ∈ session.grammar.parts) {state : State}
  {other : Parse.State} (hmirrors : Mirrors session base state other)

include henter hfinal hwindow hparts hmirrors

/-- Before its rounds are used up, a repetition comes to its end. -/
theorem Mirrors.repeats (follow recovery : Lookahead) {rounds : Nat} (expecting found : Bool)
    (hrounds : other.gap < rounds) :
    Repeats enter session place follow recovery expecting found state
      (Descent.matchAll enter session place follow recovery rounds expecting found state) := by
  induction rounds generalizing state other expecting found with
  | zero => exact absurd hrounds (Nat.not_lt_zero _)
  | succ rounds ih =>
      have hround := hmirrors.round henter hfinal place follow recovery expecting found
      have hnarrows := Parse.narrows_once (Session.final_words hfinal) hwindow levels
        (modeOf base.trials) hparts recovery hmirrors.look.horizon_le_size
      rw [matchAll_succ]
      cases hcase : roundOf enter session place follow recovery expecting found state with
      | ended after matched => exact .ended hcase
      | goesOn nextExpecting nextFound next =>
          rw [hcase] at hround
          generalize hother : Parse.roundOf (Parse.node session.words levels) session.words
            (modeOf base.trials) place follow recovery expecting found other = otherRound at hround
          cases hround with
          | goesOn hnext =>
              obtain ⟨-, hgap⟩ := Parse.narrows_of_goesOn (Session.final_words hfinal) hnarrows
                hother
              exact .goesOn hcase (ih hnext nextExpecting nextFound (by omega))

theorem Mirrors.repeated (follow : Lookahead) :
    Mirrors session base (repeated enter session place follow state)
      (Parse.repeated (Parse.node session.words levels) session.words (modeOf base.trials) place
        follow other) := by
  obtain ⟨hafter, hfound⟩ := hmirrors.matchAll henter hfinal place follow (recoveryOf place follow)
    (session.tape.size - state.index + 1) true false
  -- There are no more words ahead than tokens, so both bounds leave enough rounds.
  have hrounds : other.gap < session.words.stream.size - other.position + 1 := by
    have hbound : other.horizon ≤ session.words.stream.size := hmirrors.horizon_le_size
    rw [Parse.State.gap]
    omega
  have hresult := Parse.matchAll_node (Session.final_words hfinal) hwindow levels
    (modeOf base.trials) hparts follow (recoveryOf place follow) true false
    hmirrors.horizon_le_size hmirrors.gap_lt hrounds
  rw [hresult] at hafter hfound
  unfold Descent.repeated Parse.repeated
  revert hafter hfound
  generalize Descent.matchAll enter session place follow (recoveryOf place follow)
    (session.tape.size - state.index + 1) true false state = outcome
  generalize Parse.matchAll (Parse.node session.words levels) session.words (modeOf base.trials)
    place follow (recoveryOf place follow) (session.words.stream.size - other.position + 1) true
    false other = gist
  intro hafter hfound
  obtain ⟨after, found⟩ := outcome
  obtain ⟨otherAfter, otherFound⟩ := gist
  obtain rfl : found = otherFound := hfound
  dsimp only
  split
  · exact hafter.missing place.first place.first.describe
  · exact hafter

end

end Descent

end LosslessTree
