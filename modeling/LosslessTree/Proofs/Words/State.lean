import LosslessTree.Grammar.Basic
import LosslessTree.Proofs.Words.Shape
import LosslessTree.Proofs.Words.Stream

/-!
The state of a parse over words and its smallest steps. It is what is left of a parse over tokens
when blanks are taken together with the word in front of them: positions count words, and in place
of events there are the shapes that the events make.
-/

namespace LosslessTree

namespace Parse

/-- A trial only finds out how far an alternative goes. -/
inductive Mode where
  | actual
  | trial
  deriving DecidableEq

structure Session where
  grammar : Grammar
  stream : Stream
  /-- How many tokens a trial may look at. -/
  window : Nat
  reuse : Bool

structure State where
  position : Nat
  horizon : Nat
  touched : Bool
  /-- Children of the node under construction, the last one first. -/
  built : List Shape
  reports : List Report
  /-- Position of the newest report, also of one made before this trial. -/
  lastReport : Option Nat

namespace State

def current (session : Session) (state : State) : Token :=
  if state.position < state.horizon then session.stream.tokenAt state.position
  else session.stream.final

def look (session : Session) (state : State) : State :=
  if state.horizon ≤ state.position ∧ state.horizon < session.stream.size then
    { state with touched := true }
  else state

def atEnd (session : Session) (state : State) : Bool := (state.current session).kind == .eof

def push (shape : Shape) (state : State) : State := { state with built := shape :: state.built }

def report (report : Report) (state : State) : State :=
  { state with reports := report :: state.reports, lastReport := some report.position }

def bump (state : State) : State :=
  if state.position < state.horizon then
    { state.push (.token state.position) with position := state.position + 1 }
  else state

def lowerHorizon (mode : Mode) (state : State) : State :=
  match mode with
  | .actual => state
  | .trial => { state with horizon := min state.horizon state.position }

/-- How many tokens from a position on, of so many at most, are not in a set. -/
def runOutside (session : Session) (stop : Lookahead) : (limit : Nat) → (position : Nat) → Nat
  | 0, _ => 0
  | limit + 1, position =>
    if stop.admits (session.stream.tokenAt position) then 0
    else runOutside session stop limit (position + 1) + 1

def skip (session : Session) (mode : Mode) (stop : Lookahead) (complaint : Complaint)
    (state : State) : State :=
  match mode with
  | .trial => (state.report ⟨state.position, 0, .unexpected, stop⟩).lowerHorizon mode
  | .actual =>
    let next := state.position + 1
    let extent := 1 + runOutside session stop (state.horizon - next) next
    let state := (state.push (.error stop state.position extent)).report
      ⟨state.position, extent, complaint, stop⟩
    { state with position := state.position + extent }

def missing (mode : Mode) (expected : Lookahead) (what : String) (state : State) : State :=
  if state.lastReport = some state.position then state
  else ((state.lowerHorizon mode).push (.error expected state.position 0)).report
    ⟨state.position, 0, .missing what, expected⟩

/-- Builds a node: what is built meanwhile becomes its children. -/
def nest (kind : NodeKind) (body : State → State) (state : State) : State :=
  let inner := body { state with built := [] }
  { inner with built := .node kind state.position inner.built.reverse :: state.built }

end State

end Parse

end LosslessTree
