import LosslessTree.Descent.Slots

/-!
Parsing nodes within nodes, down to a fixed depth. At that depth a node takes a single token as an
error, so grammars that call themselves without taking a token come to an end as well.
-/

namespace LosslessTree

def depthLimit : Nat := 100

namespace Descent

def cut (session : Session) (state : State) : State :=
  let state := state.look session
  if state.atEnd session then state
  else state.skip session (.ofKinds .full) (some "nesting too deep")

def node (session : Session) : (levels : Nat) → Enter
  | 0, kind, _, state =>
    (cut session (state.emit (.start kind (state.offset session)))).emit .finish
  | levels + 1, kind, recovery, state =>
    (body (node session levels) session kind recovery
      (state.emit (.start kind (state.offset session)))).emit .finish

def State.initial (session : Session) : State where
  index := 0
  horizon := session.tape.size
  touched := false
  trials := 0
  events := #[]
  diagnostics := #[]

/-- Where the root has started, in front of the first significant token. -/
def State.entrance (session : Session) (start : NodeKind) : State :=
  let state := State.initial session
  (state.emit (.start start (state.offset session))).eatTrivia session

/-- Parses all tokens as a kind. What is left over becomes an error at the end. -/
def run (session : Session) (start : NodeKind) : State :=
  let final := Lookahead.ofKind .eof
  let state := (body (node session depthLimit) session start final
    (.entrance session start)).look session
  let state := if state.atEnd session then state else state.skip session final none
  state.emit .finish

end Descent

end LosslessTree
