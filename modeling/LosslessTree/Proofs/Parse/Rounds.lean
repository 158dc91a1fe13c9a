import LosslessTree.Proofs.Parse.Reuse

/-!
Repetitions come to an end by themselves. What lies between the position and the horizon shrinks
from round to round, so the bound on the rounds never cuts a repetition short.
-/

namespace LosslessTree

namespace Parse

open Grammar

theorem State.position_missing (mode : Mode) (expected : Lookahead) (what : String)
    (state : State) : (state.missing mode expected what).position = state.position := by
  by_cases hlast : state.lastReport = some state.position
  · rw [State.missing_of_reported hlast]
  · rw [State.missing_of_unreported hlast]

theorem respected_forward (session : Session) (mode : Mode) :
    Respected session mode fun before after => before.position ≤ after.position where
  refl _ := Nat.le_refl _
  trans := Nat.le_trans
  touch _ _ := Nat.le_refl _
  bump state hahead := by
    rw [State.bump_of_ahead hahead]
    exact Nat.le_succ _
  skip state _ _ _ := by
    cases mode with
    | actual => exact Nat.le_add_right _ _
    | trial => exact Nat.le_refl _
  missing state expected what :=
    Nat.le_of_eq (State.position_missing mode expected what state).symm
  nest _ _ _ _ hinner := hinner

variable {enter : Enter} {session : Session} {mode : Mode} {place : Place}

/-! ## One round -/

inductive Round where
  | ended (state : State) (found : Bool)
  | goesOn (expecting found : Bool) (state : State)

variable (enter session mode place) in
/-- A round of a repetition: its end, or a separator, a match or an error with which it goes on. -/
def roundOf (follow recovery : Lookahead) (expecting found : Bool) (state : State) : Round :=
  let state := state.look session
  let token := state.current session
  if token.kind == .eof then .ended state found
  else if place.slot.separator == some token.kind && !expecting then
    .goesOn true found state.bump
  else if place.first.admits token && expecting then
    let next := once enter session mode place recovery state
    if next.position = state.position then .ended next true
    else .goesOn place.slot.separator.isNone true next
  else if follow.admits token then .ended state found
  else .goesOn expecting found (state.skip session mode recovery .unexpected)

theorem matchAll_succ (follow recovery : Lookahead) (rounds : Nat) (expecting found : Bool)
    (state : State) :
    matchAll enter session mode place follow recovery (rounds + 1) expecting found state =
      match roundOf enter session mode place follow recovery expecting found state with
      | .ended state found => (state, found)
      | .goesOn expecting found state =>
        matchAll enter session mode place follow recovery rounds expecting found state := by
  rw [matchAll, roundOf]
  dsimp only
  split
  · rfl
  · split
    · rfl
    · split
      · split <;> rfl
      · split <;> rfl

variable (enter session mode place) in
/-- All that a round can come to, with what is known of the token in front then. -/
inductive RoundAt (follow recovery : Lookahead) (expecting found : Bool) (state : State) :
    Round → Prop where
  | finished (hend : (state.current session).kind = .eof) :
      RoundAt follow recovery expecting found state (.ended state found)
  | separator (hend : (state.current session).kind ≠ .eof) (hexpecting : expecting = false)
      (hseparator : place.slot.separator = some (state.current session).kind) :
      RoundAt follow recovery expecting found state (.goesOn true found state.bump)
  | stuck (hend : (state.current session).kind ≠ .eof) (hexpecting : expecting = true)
      (hadmits : place.first.admits (state.current session) = true)
      (hstays : (once enter session mode place recovery state).position = state.position) :
      RoundAt follow recovery expecting found state
        (.ended (once enter session mode place recovery state) true)
  | matched (hend : (state.current session).kind ≠ .eof) (hexpecting : expecting = true)
      (hadmits : place.first.admits (state.current session) = true)
      (hmoves : (once enter session mode place recovery state).position ≠ state.position) :
      RoundAt follow recovery expecting found state
        (.goesOn place.slot.separator.isNone true (once enter session mode place recovery state))
  | followed (hadmits : follow.admits (state.current session) = true) :
      RoundAt follow recovery expecting found state (.ended state found)
  | skipped (hend : (state.current session).kind ≠ .eof)
      (hseparator : expecting = false → place.slot.separator ≠ some (state.current session).kind)
      (hfirst : expecting = true → place.first.admits (state.current session) = false)
      (hfollow : follow.admits (state.current session) = false) :
      RoundAt follow recovery expecting found state
        (.goesOn expecting found (state.skip session mode recovery .unexpected))

theorem roundAt_roundOf (follow recovery : Lookahead) (expecting found : Bool) (state : State) :
    RoundAt enter session mode place follow recovery expecting found (state.look session)
      (roundOf enter session mode place follow recovery expecting found state) := by
  unfold roundOf
  dsimp only
  split
  · next hend => exact .finished (beq_iff_eq.mp hend)
  · next hend =>
      rw [beq_iff_eq] at hend
      split
      · next hseparator =>
          rw [Bool.and_eq_true, beq_iff_eq, Bool.not_eq_true'] at hseparator
          exact .separator hend hseparator.2 hseparator.1
      · next hseparator =>
          split
          · next hmatch =>
              rw [Bool.and_eq_true] at hmatch
              split
              · next hstays => exact .stuck hend hmatch.2 hmatch.1 hstays
              · next hmoves => exact .matched hend hmatch.2 hmatch.1 hmoves
          · next hmatch =>
              split
              · next hfollow => exact .followed hfollow
              · next hfollow =>
                  refine .skipped hend (fun hexpecting => ?_) (fun hexpecting => ?_)
                    (Bool.not_eq_true _ ▸ hfollow)
                  · simpa [hexpecting] using hseparator
                  · simpa [hexpecting] using hmatch

def State.gap (state : State) : Nat := state.horizon - state.position

theorem State.gap_look (session : Session) (state : State) :
    (state.look session).gap = state.gap := by
  rw [State.look_eq]
  rfl

/-- A token that is skipped is behind or beyond the horizon afterwards. -/
theorem State.gap_skip {state : State} (hahead : state.position < state.horizon)
    (stop : Lookahead) (complaint : Complaint) :
    (state.skip session mode stop complaint).gap < state.gap := by
  cases mode with
  | actual =>
      change state.horizon - (state.position + (1 + _)) < state.horizon - state.position
      omega
  | trial =>
      change min state.horizon state.position - state.position < state.horizon - state.position
      omega

theorem State.gap_bump {state : State} (hahead : state.position < state.horizon) :
    state.bump.gap < state.gap := by
  rw [State.bump_of_ahead hahead]
  change state.horizon - (state.position + 1) < state.horizon - state.position
  omega

structure Narrows (before after : State) : Prop where
  position : before.position ≤ after.position
  horizon : after.horizon ≤ before.horizon

/-- A round that goes on leaves less between the position and the horizon. -/
theorem narrows_of_goesOn (hfinal : session.stream.final.kind = .eof) {follow recovery : Lookahead}
    {expecting found : Bool} {state : State}
    (honce : Narrows (state.look session)
      (once enter session mode place recovery (state.look session)))
    {nextExpecting nextFound : Bool} {next : State}
    (hround : roundOf enter session mode place follow recovery expecting found state =
      .goesOn nextExpecting nextFound next) :
    next.horizon ≤ state.horizon ∧ next.gap < state.gap := by
  have hlook : (state.look session).horizon = state.horizon := by rw [State.look_eq]
  rw [← state.gap_look session, ← hlook]
  have hcase : RoundAt enter session mode place follow recovery expecting found
      (state.look session) (.goesOn nextExpecting nextFound next) :=
    hround ▸ roundAt_roundOf follow recovery expecting found state
  cases hcase with
  | separator hend =>
      have hahead := State.ahead_of_current hfinal hend
      exact ⟨(respected_horizon session mode).bump _ hahead, State.gap_bump hahead⟩
  | matched hend _ _ hmoves =>
      have hahead := State.ahead_of_current hfinal hend
      obtain ⟨hposition, hhorizon⟩ := honce
      unfold State.gap
      exact ⟨hhorizon, by omega⟩
  | skipped hend =>
      have hahead := State.ahead_of_current hfinal hend
      exact ⟨(respected_horizon session mode).skip _ _ _ hahead, State.gap_skip hahead _ _⟩

/-- With more rounds than tokens ahead, further rounds make no difference. -/
theorem matchAll_of_enough (hfinal : session.stream.final.kind = .eof) {recovery : Lookahead}
    (hforward : ∀ state, state.position ≤ (once enter session mode place recovery state).position)
    (hhorizon : ∀ state, (once enter session mode place recovery state).horizon ≤ state.horizon)
    (follow : Lookahead) {rounds : Nat} (extra : Nat) (expecting found : Bool) {state : State}
    (hrounds : state.horizon - state.position < rounds) :
    matchAll enter session mode place follow recovery (rounds + extra) expecting found state =
      matchAll enter session mode place follow recovery rounds expecting found state := by
  induction rounds generalizing expecting found state with
  | zero => exact absurd hrounds (Nat.not_lt_zero _)
  | succ rounds ih =>
      rw [Nat.succ_add, matchAll_succ, matchAll_succ]
      cases hround : roundOf enter session mode place follow recovery expecting found state with
      | ended after found => rfl
      | goesOn nextExpecting nextFound next =>
          obtain ⟨-, hgap⟩ := narrows_of_goesOn hfinal ⟨hforward _, hhorizon _⟩ hround
          unfold State.gap at hgap
          exact ih nextExpecting nextFound (by omega)

/-! ## Repetitions without a bound -/

variable (enter session mode place) in
/-- A repetition goes on round by round, however many it takes, and comes to an end. -/
inductive Repeats (follow recovery : Lookahead) :
    (expecting found : Bool) → State → State × Bool → Prop where
  | ended {expecting found matched : Bool} {state after : State}
      (hround : roundOf enter session mode place follow recovery expecting found state =
        .ended after matched) :
      Repeats follow recovery expecting found state (after, matched)
  | goesOn {expecting found nextExpecting nextFound : Bool} {state next : State}
      {result : State × Bool}
      (hround : roundOf enter session mode place follow recovery expecting found state =
        .goesOn nextExpecting nextFound next)
      (hrest : Repeats follow recovery nextExpecting nextFound next result) :
      Repeats follow recovery expecting found state result

theorem repeats_matchAll (hfinal : session.stream.final.kind = .eof) {recovery : Lookahead}
    (honce : ∀ {state : State}, state.horizon ≤ session.stream.size →
      Narrows state (once enter session mode place recovery state))
    (follow : Lookahead) {rounds : Nat} (expecting found : Bool) {state : State}
    (hbound : state.horizon ≤ session.stream.size) (hrounds : state.gap < rounds) :
    Repeats enter session mode place follow recovery expecting found state
      (matchAll enter session mode place follow recovery rounds expecting found state) := by
  induction rounds generalizing expecting found state with
  | zero => exact absurd hrounds (Nat.not_lt_zero _)
  | succ rounds ih =>
      have hlook : (state.look session).horizon ≤ session.stream.size := by rwa [State.look_eq]
      rw [matchAll_succ]
      cases hround : roundOf enter session mode place follow recovery expecting found state with
      | ended after matched => exact .ended hround
      | goesOn nextExpecting nextFound next =>
          obtain ⟨hhorizon, hgap⟩ := narrows_of_goesOn hfinal (honce hlook) hround
          exact .goesOn hround (ih nextExpecting nextFound (Nat.le_trans hhorizon hbound) (by omega))

theorem Repeats.unique {follow recovery : Lookahead} {expecting found : Bool} {state : State}
    {result other : State × Bool}
    (hfirst : Repeats enter session mode place follow recovery expecting found state result)
    (hsecond : Repeats enter session mode place follow recovery expecting found state other) :
    result = other := by
  induction hfirst with
  | ended hround =>
      cases hsecond with
      | ended hother => cases hround.symm.trans hother; rfl
      | goesOn hother => cases hround.symm.trans hother
  | goesOn hround _ ih =>
      cases hsecond with
      | ended hother => cases hround.symm.trans hother
      | goesOn hother hrest => cases hround.symm.trans hother; exact ih hrest

section

variable (hfinal : session.stream.final.kind = .eof) (hwindow : 0 < session.window) (levels : Nat)
  (mode : Mode) (hparts : ∀ part ∈ place.parts, part ∈ session.grammar.parts)

include hfinal hwindow hparts

theorem narrows_once (recovery : Lookahead) {state : State}
    (hbound : state.horizon ≤ session.stream.size) :
    Narrows state (once (node session levels) session mode place recovery state) := by
  have hforward := respected_forward session.afresh mode
  have hhorizon := respected_horizon session.afresh mode
  rw [once_afresh hfinal hwindow
    (fun mode kind recovery _ => node_eq_afresh hfinal hwindow levels mode kind recovery)
    mode hparts recovery hbound]
  exact ⟨hforward.once hfinal rfl (hforward.node hfinal rfl levels) hparts recovery state,
    hhorizon.once hfinal rfl (hhorizon.node hfinal rfl levels) hparts recovery state⟩

/-- A repetition within a parse comes to its end before its rounds are used up. -/
theorem repeats_node (follow recovery : Lookahead) {rounds : Nat} (expecting found : Bool)
    {state : State} (hbound : state.horizon ≤ session.stream.size) (hrounds : state.gap < rounds) :
    Repeats (node session levels) session mode place follow recovery expecting found state
      (matchAll (node session levels) session mode place follow recovery rounds expecting found
        state) :=
  repeats_matchAll hfinal (narrows_once hfinal hwindow levels mode hparts recovery) follow expecting
    found hbound hrounds

theorem matchAll_node (follow recovery : Lookahead) {rounds more : Nat} (expecting found : Bool)
    {state : State} (hbound : state.horizon ≤ session.stream.size) (hrounds : state.gap < rounds)
    (hmore : state.gap < more) :
    matchAll (node session levels) session mode place follow recovery rounds expecting found state =
      matchAll (node session levels) session mode place follow recovery more expecting found state :=
  (repeats_node hfinal hwindow levels mode hparts follow recovery expecting found hbound
    hrounds).unique (repeats_node hfinal hwindow levels mode hparts follow recovery expecting found
      hbound hmore)

end

end Parse

end LosslessTree
