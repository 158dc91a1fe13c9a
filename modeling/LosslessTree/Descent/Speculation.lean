import LosslessTree.Descent.State

/-!
Choosing between alternatives that begin alike. Each of them is tried on a window of tokens, after
which everything is put back; the one that gets furthest before its first diagnostic wins, the
earlier one of equals. What the winner left behind stands for the real thing if that would come out
the same: either nothing was reported and nothing beyond the window was looked at, or this is a
trial itself and the window changed nothing.
-/

namespace LosslessTree

structure Rank where
  /-- Tokens before the first report. -/
  progress : Nat
  errorFree : Bool
  deriving DecidableEq

def Rank.lt (left right : Rank) : Bool :=
  left.progress < right.progress
    || (left.progress == right.progress && !left.errorFree && right.errorFree)

namespace Descent

open Grammar

abbrev Enter := NodeKind → Lookahead → State → State

/-- Parses a symbol that fits the token in front. -/
def element (enter : Enter) (session : Session) (part : Part) (recovery : Lookahead)
    (state : State) : State :=
  match part.symbol with
  | .token _ | .word _ => state.bump session
  | .node kind => enter kind recovery state

/-- Where the window of a trial ends. -/
def windowEnd (session : Session) (state : State) : Nat :=
  min (session.tape.windowEnd session.window state.index) state.horizon

/-- How far a parse had come: the token in front, and how much had been written down. -/
structure Checkpoint where
  index : Nat
  events : Nat
  diagnostics : Nat

def State.checkpoint (state : State) : Checkpoint :=
  ⟨state.index, state.events.size, state.diagnostics.size⟩

def State.rewind (checkpoint : Checkpoint) (state : State) : State :=
  { state with
    index := checkpoint.index
    events := state.events.shrink checkpoint.events
    diagnostics := state.diagnostics.shrink checkpoint.diagnostics }

def State.rank (checkpoint : Checkpoint) (state : State) : Rank :=
  match state.diagnostics[checkpoint.diagnostics]? with
  | some diagnostic => ⟨diagnostic.index - checkpoint.index, false⟩
  | none => ⟨state.index - checkpoint.index, true⟩

/-- What the winner of some trials has left behind. -/
structure Stash where
  events : Array Event
  diagnostics : Array Diagnostic
  index : Nat
  /-- Where it is below the window's end. -/
  horizon : Option Nat

/-- The outcome of a trial that may stand for the real thing. -/
def State.stash (checkpoint : Checkpoint) (limit : Nat) (state : State) : Stash where
  events := state.events.extract checkpoint.events
  diagnostics := state.diagnostics.extract checkpoint.diagnostics
  index := state.index
  horizon := if state.horizon < limit then some state.horizon else none

def Stash.resume (stash : Stash) (state : State) : State :=
  { state with
    events := state.events ++ stash.events
    diagnostics := state.diagnostics ++ stash.diagnostics
    index := stash.index
    horizon := stash.horizon.getD state.horizon }

structure Best where
  part : Part
  rank : Rank
  stash : Option Stash

def Best.of (session : Session) (checkpoint : Checkpoint) (limit whole : Nat) (part : Part)
    (outcome : State) : Best :=
  let rank := outcome.rank checkpoint
  let reusable := session.reuse
    && ((!outcome.touched && rank.errorFree) || (1 < outcome.trials && limit == whole))
  ⟨part, rank, if reusable then some (outcome.stash checkpoint limit) else none⟩

structure Trials where
  state : State
  best : Option Best
  /-- One of them has looked beyond the window. -/
  touched : Bool

/-- Tries a part on the tokens before a limit. The whole is what could be seen at first. -/
def Trials.attempt (enter : Enter) (session : Session) (recovery : Lookahead)
    (checkpoint : Checkpoint) (limit whole : Nat) (trials : Trials) (part : Part) : Trials :=
  let outcome := element enter session part recovery
    { trials.state with horizon := limit, touched := false }
  let best := if trials.best.all (·.rank.lt (outcome.rank checkpoint)) then
      some (.of session checkpoint limit whole part outcome)
    else trials.best
  ⟨outcome.rewind checkpoint, best, trials.touched || outcome.touched⟩

/-- Goes on with the winner from where the trials started. -/
def Trials.settle (enter : Enter) (session : Session) (recovery : Lookahead) (before : State)
    (trials : Trials) : State :=
  let state := { trials.state with
    trials := trials.state.trials - 1
    horizon := before.horizon
    touched := before.touched || trials.touched }
  match trials.best with
  | none => state
  | some ⟨part, _, stash⟩ =>
    match stash with
    | some stash => stash.resume state
    | none => element enter session part recovery state

def tryAll (enter : Enter) (session : Session) (candidates : List Part) (recovery : Lookahead)
    (state : State) : Trials :=
  candidates.foldl
    (Trials.attempt enter session recovery state.checkpoint (windowEnd session state) state.horizon)
    ⟨{ state with trials := state.trials + 1 }, none, false⟩

def speculate (enter : Enter) (session : Session) (candidates : List Part) (recovery : Lookahead)
    (state : State) : State :=
  (tryAll enter session candidates recovery state).settle enter session recovery state

end Descent

end LosslessTree
