import LosslessTree.Descent.Tape
import LosslessTree.Grammar.Basic

/-!
The state of a parse and its smallest steps. Parsing goes over all tokens, blanks and comments
among them, and writes down what it finds as events in the order of the text. It sees tokens up to a
horizon, beyond which everything looks like the end of the text; looking there is noted. In a trial
the horizon falls to the first place that does not fit, so that the trial ends soon after.
-/

namespace LosslessTree

/-- What happens on the way through the tokens. A node lasts from its start to its finish. -/
inductive Event where
  | start (kind : NodeKind) (offset : Nat)
  | error (expected : Lookahead) (offset : Nat)
  | token (index : Nat)
  | finish

structure Diagnostic where
  /-- Where it was reported, among all tokens. -/
  index : Nat
  start : Nat
  stop : Nat
  message : String
  expected : Lookahead

namespace Descent

structure Session where
  grammar : Grammar
  tape : Tape
  /-- How many significant tokens a trial may look at. -/
  window : Nat
  /-- Whether the outcome of a trial may stand for the real thing. -/
  reuse : Bool

structure State where
  index : Nat
  horizon : Nat
  /-- Something beyond the horizon has been looked at. -/
  touched : Bool
  /-- How many trials are under way, one inside the other. -/
  trials : Nat
  events : Array Event
  diagnostics : Array Diagnostic

namespace State

/-- The token in front, as far as the horizon lets one see. -/
def current (session : Session) (state : State) : Token :=
  if state.index < state.horizon then session.tape.tokenAt state.index else session.tape.final

def look (session : Session) (state : State) : State :=
  if state.horizon ≤ state.index ∧ state.horizon < session.tape.size then
    { state with touched := true }
  else state

def atEnd (session : Session) (state : State) : Bool := (state.current session).kind == .eof

def offset (session : Session) (state : State) : Nat := session.tape.offsetAt state.index

def emit (event : Event) (state : State) : State := { state with events := state.events.push event }

def report (diagnostic : Diagnostic) (state : State) : State :=
  { state with diagnostics := state.diagnostics.push diagnostic }

def take (state : State) : State :=
  { state with index := state.index + 1, events := state.events.push (.token state.index) }

def takeTo (stop : Nat) (state : State) : State :=
  { state with
    index := stop
    events := state.events
      ++ ((List.range' state.index (stop - state.index)).map Event.token).toArray }

def eatTrivia (session : Session) (state : State) : State :=
  if state.index < state.horizon ∧ (session.tape.tokenAt state.index).isTrivia then
    state.take.eatTrivia session
  else state
termination_by state.horizon - state.index
decreasing_by simp only [take]; omega

/-- Takes the token in front and the blanks and comments behind it. -/
def bump (session : Session) (state : State) : State :=
  if state.index < state.horizon then state.take.eatTrivia session else state

/-- What goes wrong in a trial ends it. -/
def lowerHorizon (state : State) : State :=
  if 0 < state.trials then { state with horizon := min state.horizon state.index } else state

/-- Takes the token in front, and those after it up to one in a set, with the blanks and comments
between them; says where the last token ends. -/
def skipOver (session : Session) (stop : Lookahead) (state : State) : State × Nat :=
  let reached := (session.tape.tokenAt state.index).span.stop
  let next := session.tape.nextFrom (state.index + 1)
  let state := state.take
  if next < session.tape.size then
    if state.horizon ≤ next ∨ stop.admits (session.tape.tokenAt next) then (state, reached)
    else (state.takeTo next).skipOver session stop
  else (state, reached)
termination_by session.tape.size - state.index
decreasing_by
  have hlt := session.tape.lt_nextFrom ‹_›
  simp only [takeTo]
  omega

/-- Puts the token in front, and those after it up to one in a set, into an error node. -/
def skip (session : Session) (stop : Lookahead) (message : Option String) (state : State) : State :=
  let index := state.index
  let offset := state.offset session
  if 0 < state.trials then
    { state.report ⟨index, offset, offset, "unexpected token", stop⟩ with
      horizon := min state.horizon index }
  else
    let first := session.tape.tokenAt index
    let message := (message <|> first.flaw).getD ("unexpected " ++ first.kind.describe)
    let (state, reached) := (state.emit (.error stop offset)).skipOver session stop
    ((state.emit .finish).report ⟨index, offset, reached, message, stop⟩).eatTrivia session

/-- Puts an error node without tokens where something is missing, unless the place has been
complained about. -/
def missing (session : Session) (expected : Lookahead) (what : String) (state : State) : State :=
  if state.diagnostics.back?.map (·.index) = some state.index then state
  else
    let offset := state.offset session
    ((state.lowerHorizon.emit (.error expected offset)).emit .finish).report
      ⟨state.index, offset, offset, "expected " ++ what, expected⟩

end State

end Descent

end LosslessTree
