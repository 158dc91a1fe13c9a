import LosslessTree.Proofs.Descent.Trials

/-!
Slots are parsed alike on tokens and on words: whatever is decided depends on the token in front,
which is the same, and each step that is taken comes to the same.
-/

namespace LosslessTree

namespace Descent

open Grammar

variable {session : Session} {enter : Enter} {words : Parse.Enter} {base : Base} {state : State}
  {other : Parse.State} (hmirrors : Mirrors session base state other)

include hmirrors

theorem Mirrors.placeholder (part : Part) :
    Mirrors session base (placeholder session part state)
      (Parse.placeholder (modeOf base.trials) part other) := by
  have hmissing := hmirrors.missing part.first part.symbol.describe
  unfold Descent.placeholder Parse.placeholder
  generalize part.symbol.describe = what at hmissing ⊢
  cases part.symbol with
  | token kind => exact hmissing
  | word text => exact hmissing
  | node kind => exact hmissing.nest kind id id fun hinner _ => hinner

theorem Mirrors.skip_of_current (hfinal : session.tape.final.kind = .eof)
    (hcurrent : (other.current session.words).kind ≠ .eof) (stop : Lookahead) :
    Mirrors session base (state.skip session stop none)
      (other.skip session.words (modeOf base.trials) stop .unexpected) :=
  hmirrors.skip stop (fun _ => rfl) (Parse.State.ahead_of_current hfinal hcurrent)

variable (henter : Follows session enter words)

include henter

theorem Mirrors.choose (parts : List Part) (recovery : Lookahead) :
    let outcome := choose enter session parts recovery state
    let gist := Parse.choose words session.words (modeOf base.trials) parts recovery other
    Mirrors session base outcome.1 gist.1 ∧ outcome.2 = gist.2 := by
  have hlook := hmirrors.look
  simp only [Descent.choose, Parse.choose, hlook.current]
  generalize parts.filter _ = candidates
  rcases candidates with - | ⟨first, - | ⟨second, rest⟩⟩
  · cases parts.find? (·.nullable) with
    | none => exact ⟨hlook, rfl⟩
    | some part => exact ⟨henter.element part recovery hlook, rfl⟩
  · exact ⟨henter.element first recovery hlook, rfl⟩
  · exact ⟨mirrors_speculate henter hlook recovery (first :: second :: rest), rfl⟩

theorem Mirrors.chooseOrReport (place : Place) (recovery : Lookahead) :
    Mirrors session base (chooseOrReport enter session place recovery state)
      (Parse.chooseOrReport words session.words (modeOf base.trials) place recovery other) := by
  obtain ⟨hchosen, hfound⟩ := hmirrors.choose henter place.parts recovery
  unfold Descent.chooseOrReport Parse.chooseOrReport
  generalize Descent.choose enter session place.parts recovery state = outcome at hchosen hfound ⊢
  generalize Parse.choose words session.words (modeOf base.trials) place.parts recovery other =
    gist at hchosen hfound ⊢
  obtain ⟨after, found⟩ := outcome
  obtain ⟨otherAfter, otherFound⟩ := gist
  obtain rfl : found = otherFound := hfound
  cases found with
  | true => exact hchosen
  | false => exact hchosen.missing place.first place.first.describe

variable (hfinal : session.tape.final.kind = .eof)

include hfinal

theorem Mirrors.expect (part : Part) (follow : Lookahead) :
    Mirrors session base (expect enter session part follow state)
      (Parse.expect words session.words (modeOf base.trials) part follow other) := by
  have hlook := hmirrors.look
  simp only [Descent.expect, Parse.expect, hlook.current]
  split
  · exact henter.element part follow hlook
  · split
    · exact hlook.placeholder part
    · next hend =>
        have hcurrent : ((other.look session.words).current session.words).kind ≠ .eof := by
          simpa using fun heof => hend (by simp [heof])
        have hskip := (hlook.skip_of_current hfinal hcurrent (part.first.union follow)).look
        rw [hskip.current]
        split
        · exact henter.element part follow hskip
        · exact hskip.placeholder part

theorem Mirrors.expectAll (parts : List Part) (follow : Lookahead) :
    Mirrors session base (expectAll enter session parts follow state)
      (Parse.expectAll words session.words (modeOf base.trials) parts follow other) := by
  induction parts generalizing state other with
  | nil => exact hmirrors
  | cons part rest ih => exact ih (hmirrors.expect henter hfinal part (part.follow.union follow))

theorem Mirrors.once (place : Place) (follow : Lookahead) :
    Mirrors session base (once enter session place follow state)
      (Parse.once words session.words (modeOf base.trials) place follow other) := by
  unfold Descent.once Parse.once
  cases place.slot.pattern with
  | sequence symbols => exact hmirrors.expectAll henter hfinal place.parts follow
  | choice symbols => exact hmirrors.chooseOrReport henter place follow

theorem Mirrors.required (place : Place) (follow : Lookahead) :
    Mirrors session base (required enter session place follow state)
      (Parse.required words session.words (modeOf base.trials) place follow other) := by
  unfold Descent.required Parse.required
  cases place.slot.pattern with
  | sequence symbols => exact hmirrors.expectAll henter hfinal place.parts follow
  | choice symbols =>
      have hlook := hmirrors.look
      simp only [hlook.current]
      refine Mirrors.chooseOrReport ?_ henter place follow
      split
      · exact hlook
      · next hend =>
          refine hlook.skip_of_current hfinal (fun heof => hend ?_) _
          simp [heof]

theorem Mirrors.optional (place : Place) (follow : Lookahead) :
    Mirrors session base (optional enter session place follow state)
      (Parse.optional words session.words (modeOf base.trials) place follow other) := by
  have hlook := hmirrors.look
  simp only [Descent.optional, Parse.optional, hlook.current]
  split
  · exact hlook.once henter hfinal place follow
  · split
    · exact hlook
    · next hend =>
        have hcurrent : ((other.look session.words).current session.words).kind ≠ .eof :=
          fun heof => hend (by simp [heof])
        have hskip := (hlook.skip_of_current hfinal hcurrent (place.first.union follow)).look
        rw [hskip.current]
        split
        · exact hskip.once henter hfinal place follow
        · exact hskip

end Descent

end LosslessTree
