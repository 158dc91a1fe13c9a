import LosslessTree.Descent.Run
import LosslessTree.Proofs.Words.Slots

/-!
Parsing nodes within nodes over words, down to the same depth as over tokens.
-/

namespace LosslessTree

namespace Parse

def cut (session : Session) (mode : Mode) (state : State) : State :=
  let state := state.look session
  if state.atEnd session then state
  else state.skip session mode (.ofKinds .full) .tooDeep

def node (session : Session) : (levels : Nat) → Enter
  | 0, mode, kind, _, state => state.nest kind (cut session mode)
  | levels + 1, mode, kind, recovery, state =>
    state.nest kind (body (node session levels) session mode kind recovery)

def State.initial (session : Session) : State where
  position := 0
  horizon := session.stream.size
  touched := false
  built := []
  reports := []
  lastReport := none

def run (session : Session) (start : NodeKind) : State :=
  let final := Lookahead.ofKind .eof
  let state := (body (node session depthLimit) session .actual start final
    (.initial session)).look session
  if state.atEnd session then state else state.skip session .actual final .unexpected

end Parse

end LosslessTree
