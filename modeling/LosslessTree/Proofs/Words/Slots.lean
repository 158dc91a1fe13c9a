import LosslessTree.Descent.Slots
import LosslessTree.Proofs.Words.Speculation

/-!
Parsing the slots of a rule over words. A match, a skip or a placeholder is one step from word to
word here, where parsing over tokens also goes over the blanks between them.
-/

namespace LosslessTree

namespace Parse

open Grammar

variable (enter : Enter) (session : Session) (mode : Mode)

def choose (parts : List Part) (recovery : Lookahead) (state : State) : State × Bool :=
  let state := state.look session
  match parts.filter (·.first.admits (state.current session)) with
  | [] =>
    match parts.find? (·.nullable) with
    | some part => (element enter mode part recovery state, true)
    | none => (state, false)
  | [part] => (element enter mode part recovery state, true)
  | candidates => (speculate enter session mode candidates recovery state, true)

def chooseOrReport (place : Place) (recovery : Lookahead) (state : State) : State :=
  match choose enter session mode place.parts recovery state with
  | (state, true) => state
  | (state, false) => state.missing mode place.first place.first.describe

def placeholder (part : Part) (state : State) : State :=
  let state := state.missing mode part.first part.symbol.describe
  match part.symbol with
  | .node kind => state.push (.node kind state.position [])
  | _ => state

def expect (part : Part) (follow : Lookahead) (state : State) : State :=
  let state := state.look session
  let token := state.current session
  if part.first.admits token || part.nullable then element enter mode part follow state
  else
    let stop := part.first.union follow
    if stop.admits token || token.kind == .eof then placeholder mode part state
    else
      let state := (state.skip session mode stop .unexpected).look session
      if part.first.admits (state.current session) then element enter mode part follow state
      else placeholder mode part state

def expectAll (parts : List Part) (follow : Lookahead) (state : State) : State :=
  parts.foldl (fun state part =>
    expect enter session mode part (part.follow.union follow) state) state

def once (place : Place) (follow : Lookahead) (state : State) : State :=
  match place.slot.pattern with
  | .sequence _ => expectAll enter session mode place.parts follow state
  | .choice _ => chooseOrReport enter session mode place follow state

def required (place : Place) (follow : Lookahead) (state : State) : State :=
  match place.slot.pattern with
  | .sequence _ => expectAll enter session mode place.parts follow state
  | .choice _ =>
    let state := state.look session
    let token := state.current session
    let stop := place.first.union follow
    let state :=
      if place.nullable || stop.admits token || token.kind == .eof then state
      else state.skip session mode stop .unexpected
    chooseOrReport enter session mode place follow state

def optional (place : Place) (follow : Lookahead) (state : State) : State :=
  let state := state.look session
  let token := state.current session
  if place.first.admits token then once enter session mode place follow state
  else if token.kind == .eof || follow.admits token then state
  else
    let state :=
      (state.skip session mode (place.first.union follow) .unexpected).look session
    if place.first.admits (state.current session) then
      once enter session mode place follow state
    else state

def matchAll (place : Place) (follow recovery : Lookahead) :
    (rounds : Nat) → (expecting found : Bool) → State → State × Bool
  | 0, _, found, state => (state, found)
  | rounds + 1, expecting, found, state =>
    let state := state.look session
    let token := state.current session
    if token.kind == .eof then (state, found)
    else if place.slot.separator == some token.kind && !expecting then
      matchAll place follow recovery rounds true found state.bump
    else if place.first.admits token && expecting then
      let next := once enter session mode place recovery state
      if next.position = state.position then (next, true)
      else matchAll place follow recovery rounds place.slot.separator.isNone true next
    else if follow.admits token then (state, found)
    else
      matchAll place follow recovery rounds expecting found
        (state.skip session mode recovery .unexpected)

def repeated (place : Place) (follow : Lookahead) (state : State) : State :=
  let (state, found) := matchAll enter session mode place follow (recoveryOf place follow)
    (session.stream.size - state.position + 1) true false state
  if !found && place.slot.multiplicity == .oneOrMore then
    state.missing mode place.first place.first.describe
  else state

def slot (place : Place) (recovery : Lookahead) (state : State) : State :=
  let follow := place.follow.union recovery
  match place.slot.multiplicity with
  | .exactlyOne => required enter session mode place follow state
  | .zeroOrOne => optional enter session mode place follow state
  | .zeroOrMore | .oneOrMore => repeated enter session mode place follow state

def body (kind : NodeKind) (recovery : Lookahead) (state : State) : State :=
  match session.grammar.production? kind with
  | some production =>
    production.places.foldl (fun state place => slot enter session mode place recovery state) state
  | none => state

end Parse

end LosslessTree
