import LosslessTree.Descent.Speculation

/-!
Parsing the slots of a rule. Whatever the tokens are, each slot comes to an end: tokens that fit
neither it nor what follows are skipped, and what is missing is reported.
-/

namespace LosslessTree

open Grammar

/-- What ends the skipping between two matches. -/
def recoveryOf (place : Place) (follow : Lookahead) : Lookahead :=
  let recovery := follow.union place.first
  match place.slot.separator with
  | some separator => recovery.union (.ofKind separator)
  | none => recovery

namespace Descent

variable (enter : Enter) (session : Session)

/-- Parses the alternative that fits the token in front; says whether there is one. -/
def choose (parts : List Part) (recovery : Lookahead) (state : State) : State × Bool :=
  let state := state.look session
  match parts.filter (·.first.admits (state.current session)) with
  | [] =>
    match parts.find? (·.nullable) with
    | some part => (element enter session part recovery state, true)
    | none => (state, false)
  | [part] => (element enter session part recovery state, true)
  | candidates => (speculate enter session candidates recovery state, true)

def chooseOrReport (place : Place) (recovery : Lookahead) (state : State) : State :=
  match choose enter session place.parts recovery state with
  | (state, true) => state
  | (state, false) => state.missing session place.first place.first.describe

/-- Reports a missing symbol. A node stands in for itself without children. -/
def placeholder (part : Part) (state : State) : State :=
  let state := state.missing session part.first part.symbol.describe
  match part.symbol with
  | .node kind => (state.emit (.start kind (state.offset session))).emit .finish
  | _ => state

/-- Parses a symbol that must be there, skipping tokens in front of it. -/
def expect (part : Part) (follow : Lookahead) (state : State) : State :=
  let state := state.look session
  let token := state.current session
  if part.first.admits token || part.nullable then element enter session part follow state
  else
    let stop := part.first.union follow
    if stop.admits token || token.kind == .eof then placeholder session part state
    else
      let state := (state.skip session stop none).look session
      if part.first.admits (state.current session) then element enter session part follow state
      else placeholder session part state

def expectAll (parts : List Part) (follow : Lookahead) (state : State) : State :=
  parts.foldl (fun state part => expect enter session part (part.follow.union follow) state) state

def once (place : Place) (follow : Lookahead) (state : State) : State :=
  match place.slot.pattern with
  | .sequence _ => expectAll enter session place.parts follow state
  | .choice _ => chooseOrReport enter session place follow state

def required (place : Place) (follow : Lookahead) (state : State) : State :=
  match place.slot.pattern with
  | .sequence _ => expectAll enter session place.parts follow state
  | .choice _ =>
    let state := state.look session
    let token := state.current session
    let stop := place.first.union follow
    let state :=
      if place.nullable || stop.admits token || token.kind == .eof then state
      else state.skip session stop none
    chooseOrReport enter session place follow state

def optional (place : Place) (follow : Lookahead) (state : State) : State :=
  let state := state.look session
  let token := state.current session
  if place.first.admits token then once enter session place follow state
  else if token.kind == .eof || follow.admits token then state
  else
    let state := (state.skip session (place.first.union follow) none).look session
    if place.first.admits (state.current session) then once enter session place follow state
    else state

/-- Parses matches and separators until something else comes; says whether there was a match.
Every round but the last two goes forward, so the tokens ahead bound the rounds. -/
def matchAll (place : Place) (follow recovery : Lookahead) :
    (rounds : Nat) → (expecting found : Bool) → State → State × Bool
  | 0, _, found, state => (state, found)
  | rounds + 1, expecting, found, state =>
    let state := state.look session
    let token := state.current session
    if token.kind == .eof then (state, found)
    else if place.slot.separator == some token.kind && !expecting then
      matchAll place follow recovery rounds true found (state.bump session)
    else if place.first.admits token && expecting then
      let before := state.index
      let next := once enter session place recovery state
      if next.index = before then (next, true)
      else matchAll place follow recovery rounds place.slot.separator.isNone true next
    else if follow.admits token then (state, found)
    else matchAll place follow recovery rounds expecting found (state.skip session recovery none)

def repeated (place : Place) (follow : Lookahead) (state : State) : State :=
  let (state, found) := matchAll enter session place follow (recoveryOf place follow)
    (session.tape.size - state.index + 1) true false state
  if !found && place.slot.multiplicity == .oneOrMore then
    state.missing session place.first place.first.describe
  else state

def slot (place : Place) (recovery : Lookahead) (state : State) : State :=
  let follow := place.follow.union recovery
  match place.slot.multiplicity with
  | .exactlyOne => required enter session place follow state
  | .zeroOrOne => optional enter session place follow state
  | .zeroOrMore | .oneOrMore => repeated enter session place follow state

def body (kind : NodeKind) (recovery : Lookahead) (state : State) : State :=
  match session.grammar.production? kind with
  | some production =>
    production.places.foldl (fun state place => slot enter session place recovery state) state
  | none => state

end Descent

end LosslessTree
