import LosslessTree.Descent.Speculation
import LosslessTree.Proofs.Words.State

/-!
Choosing between alternatives that begin alike, over words. The trials of all alternatives are
listed before one of them wins, and ranks count words. The outcome of a trial stands for the real
thing if that would come out the same: either nothing was reported and nothing beyond the window
was looked at, or this is a trial itself and the window changed nothing.
-/

namespace LosslessTree

namespace Parse

open Grammar

abbrev Enter := Mode → NodeKind → Lookahead → State → State

def element (enter : Enter) (mode : Mode) (part : Part) (recovery : Lookahead) (state : State) :
    State :=
  match part.symbol with
  | .token _ | .word _ => state.bump
  | .node kind => enter mode kind recovery state

def windowEnd (session : Session) (state : State) : Nat :=
  min (min (state.position + session.window) session.stream.size) state.horizon

def attempt (enter : Enter) (session : Session) (recovery : Lookahead) (state : State)
    (part : Part) : State :=
  element enter .trial part recovery
    { state with horizon := windowEnd session state, touched := false, reports := [] }

def rank (state outcome : State) : Rank :=
  match outcome.reports.getLast? with
  | some report => ⟨report.position - state.position, false⟩
  | none => ⟨outcome.position - state.position, true⟩

/-- The first of the attempts that no other outranks. -/
def best (state : State) (first : Part × State) (others : List (Part × State)) : Part × State :=
  others.foldl (fun best other =>
    if (rank state best.2).lt (rank state other.2) then other else best) first

def isReusable (session : Session) (mode : Mode) (state outcome : State) : Bool :=
  session.reuse
    && ((!outcome.touched && outcome.reports.isEmpty)
      || (mode == .trial && windowEnd session state == state.horizon))

def resume (session : Session) (state outcome : State) (touched : Bool) : State :=
  { outcome with
    horizon :=
      if outcome.horizon < windowEnd session state then outcome.horizon else state.horizon
    touched
    reports := outcome.reports ++ state.reports }

def speculate (enter : Enter) (session : Session) (mode : Mode) (candidates : List Part)
    (recovery : Lookahead) (state : State) : State :=
  match candidates.map fun part => (part, attempt enter session recovery state part) with
  | [] => state
  | first :: others =>
    let (part, outcome) := best state first others
    let touched := state.touched || (first :: others).any (·.2.touched)
    if isReusable session mode state outcome then resume session state outcome touched
    else element enter mode part recovery { state with touched }

end Parse

end LosslessTree
