import LosslessTree.Proofs.Parse.Choice

/-!
Repetitions up to a token that they take by itself. Where two parses see the same tokens up to it, both
take it in the same round, with the same behind them: what comes behind the token has had no say.
-/

namespace LosslessTree

theorem Lookahead.admits_of_kind {token : Token} (hkind : token.kind ≠ .varId) (set : Lookahead) :
    set.admits token = set.kinds.contains token.kind := by
  simp [admits, hkind]

namespace Grammar

/-- The only part of a place that may begin with a token is the token itself. -/
structure Place.Takes (place : Place) (token : Token) : Prop where
  admits : place.first.admits token = true
  sole : ∃ part kind, place.parts.filter (·.first.admits token) = [part] ∧ part.symbol = .token kind

theorem Place.Takes.of_same {place : Place} {token other : Token} (htakes : place.Takes token)
    (hsame : token.Same other) : place.Takes other where
  admits := hsame.admits_eq place.first ▸ htakes.admits
  sole := by
    simp only [← hsame.admits_eq]
    exact htakes.sole

def Place.takes (place : Place) (kind : TokenKind) : Bool :=
  place.first.kinds.contains kind &&
    (place.parts.filter (·.first.kinds.contains kind)).map (·.symbol) == [.token kind]

theorem Place.Takes.of_takes {place : Place} {token : Token} (hkind : token.kind ≠ .varId)
    (htakes : place.takes token.kind = true) : place.Takes token := by
  simp only [Place.takes, Bool.and_eq_true, beq_iff_eq] at htakes
  obtain ⟨hfirst, hparts⟩ := htakes
  have hadmits (set : Lookahead) : set.admits token = set.kinds.contains token.kind :=
    Lookahead.admits_of_kind hkind set
  obtain ⟨part, hsole, hsymbol⟩ := List.map_eq_singleton_iff.mp hparts
  refine ⟨hadmits _ ▸ hfirst, part, token.kind, ?_, hsymbol⟩
  simpa only [hadmits] using hsole

end Grammar

namespace Parse

open Grammar

/-! ## Single rounds -/

theorem State.look_of_ahead {session : Session} {state : State}
    (hahead : state.position < state.horizon) : state.look session = state :=
  if_neg fun hbehind => Nat.not_le_of_gt hahead hbehind.1

section

variable {enter : Enter} {session : Session} {mode : Mode} {place : Place} {symbols : List Symbol}
  (hslot : place.slot = .many symbols) {state : State} (hahead : state.position < state.horizon)

include hslot hahead

theorem matchAll_round (follow recovery : Lookahead) (rounds : Nat) (found : Bool) :
    matchAll enter session mode place follow recovery (rounds + 1) true found state =
      if (session.stream.tokenAt state.position).kind = .eof then (state, found)
      else if place.first.admits (session.stream.tokenAt state.position) then
        let next := once enter session mode place recovery state
        if next.position = state.position then (next, true)
        else matchAll enter session mode place follow recovery rounds true true next
      else if follow.admits (session.stream.tokenAt state.position) then (state, found)
      else
        matchAll enter session mode place follow recovery rounds true found
          (state.skip session mode recovery .unexpected) := by
  have hcurrent : state.current session = session.stream.tokenAt state.position := if_pos hahead
  rw [matchAll]
  simp [State.look_of_ahead hahead, hcurrent, hslot, Slot.many]

omit hahead in
theorem once_eq (recovery : Lookahead) :
    once enter session mode place recovery state =
      chooseOrReport enter session mode place recovery state := by
  rw [once, hslot]
  rfl

theorem once_takes (htakes : place.Takes (session.stream.tokenAt state.position))
    (recovery : Lookahead) : once enter session mode place recovery state = state.bump := by
  have hcurrent : state.current session = session.stream.tokenAt state.position := if_pos hahead
  obtain ⟨part, kind, hsole, hsymbol⟩ := htakes.sole
  rw [once_eq hslot, chooseOrReport, choose]
  simp only [State.look_of_ahead hahead, hcurrent, hsole, element, hsymbol]

theorem matchAll_takes (hkind : (session.stream.tokenAt state.position).kind ≠ .eof)
    (htakes : place.Takes (session.stream.tokenAt state.position)) (follow recovery : Lookahead)
    (rounds : Nat) (found : Bool) :
    matchAll enter session mode place follow recovery (rounds + 1) true found state =
      matchAll enter session mode place follow recovery rounds true true state.bump := by
  rw [matchAll_round hslot hahead, if_neg hkind, if_pos htakes.admits]
  dsimp only
  rw [once_takes hslot hahead htakes, if_neg]
  rw [State.bump_of_ahead hahead]
  exact Nat.succ_ne_self _

theorem matchAll_stray {follow : Lookahead}
    (hkind : (session.stream.tokenAt state.position).kind ≠ .eof)
    (hfirst : place.first.admits (session.stream.tokenAt state.position) = false)
    (hfollow : follow.admits (session.stream.tokenAt state.position) = false) (recovery : Lookahead)
    (rounds : Nat) (found : Bool) :
    matchAll enter session mode place follow recovery (rounds + 1) true found state =
      matchAll enter session mode place follow recovery rounds true found
        (state.skip session mode recovery .unexpected) := by
  rw [matchAll_round hslot hahead, if_neg hkind, if_neg (by simp [hfirst]), if_neg (by simp [hfollow])]

end

/-! ## Up to the token -/

theorem Covers.token_mem {grammar : Grammar} {size start stop position : Nat} {shapes : List Shape}
    {reports : List Report} (hcovers : Covers grammar size shapes reports start stop)
    (hmem : .token position ∈ shapes) : start ≤ position ∧ position < stop := by
  induction hcovers with
  | nil => cases hmem
  | token _ hrest ih =>
      have hle := hrest.start_le_stop
      rcases List.mem_cons.mp hmem with heq | hmem
      · cases heq
        exact ⟨Nat.le_refl _, hle⟩
      · obtain ⟨hlow, hhigh⟩ := ih hmem
        exact ⟨Nat.le_of_succ_le hlow, hhigh⟩
  | node _ hchildren _ _ ih =>
      rcases List.mem_cons.mp hmem with heq | hmem
      · cases heq
      · obtain ⟨hlow, hhigh⟩ := ih hmem
        exact ⟨Nat.le_trans hchildren.start_le_stop hlow, hhigh⟩
  | error _ _ ih =>
      rcases List.mem_cons.mp hmem with heq | hmem
      · cases heq
      · obtain ⟨hlow, hhigh⟩ := ih hmem
        exact ⟨Nat.le_trans (Nat.le_add_right _ _) hlow, hhigh⟩

/-- The token at a position is part of what has been built between two states, at the top. -/
def Lays (position : Nat) (before after : State) : Prop :=
  ∃ added, after.built = added ++ before.built ∧ .token position ∈ added

namespace Lays

variable {session : Session} {before middle after : State} {position : Nat}

theorem bounds (hlays : Lays position before after) (hcovered : Covered session before after) :
    before.position ≤ position ∧ position < after.position := by
  obtain ⟨added, hadded, hmem⟩ := hlays
  obtain ⟨shapes, reports, hbuilt, -, hcovers⟩ := hcovered.record
  obtain rfl : added = shapes.reverse := List.append_cancel_right (hadded.symm.trans hbuilt)
  exact hcovers.token_mem (List.mem_reverse.mp hmem)

theorem split (hlays : Lays position before after) (hfirst : Covered session before middle)
    (hsecond : Covered session middle after) :
    Lays position before middle ∨ Lays position middle after := by
  obtain ⟨added, hadded, hmem⟩ := hlays
  obtain ⟨shapes, -, hbuilt, -, -⟩ := hfirst.record
  obtain ⟨more, -, hmore, -, -⟩ := hsecond.record
  rw [hmore, hbuilt, ← List.append_assoc] at hadded
  rw [← List.append_cancel_right hadded] at hmem
  rcases List.mem_append.mp hmem with hlater | hearlier
  · exact .inr ⟨_, hmore, hlater⟩
  · exact .inl ⟨_, hbuilt, hearlier⟩

theorem later (hlays : Lays position before after) (hfirst : Covered session before middle)
    (hsecond : Covered session middle after) (hposition : middle.position ≤ position) :
    Lays position middle after :=
  (hlays.split hfirst hsecond).resolve_left fun hearly =>
    Nat.not_lt_of_le hposition (hearly.bounds hfirst).2

theorem earlier (hlays : Lays position before after) (hfirst : Covered session before middle)
    (hsecond : Covered session middle after) (hposition : position < middle.position) :
    Lays position before middle :=
  (hlays.split hfirst hsecond).resolve_right fun hlate =>
    Nat.not_le_of_gt hposition (hlate.bounds hsecond).1

end Lays

theorem Grows.quiet {before middle after : State} (hfirst : Grows before middle)
    (hsecond : Grows middle after) (hquiet : after.reports = before.reports) :
    middle.reports = before.reports := by
  obtain ⟨newer, hnewer, -⟩ := hfirst.reports
  obtain ⟨newest, hnewest, -⟩ := hsecond.reports
  have hlength := congrArg List.length (hnewest.symm.trans hquiet)
  rw [hnewer, List.length_append, List.length_append] at hlength
  rw [hnewer, List.eq_nil_of_length_eq_zero (show newer.length = 0 by omega), List.nil_append]

theorem FailedAt.not_quiet {base : List Report} {place : Nat} {state : State}
    (hfailed : FailedAt base place state) : state.reports ≠ base := by
  obtain ⟨newer, report, hreports, -⟩ := hfailed
  intro hquiet
  have hlength := congrArg List.length (hreports.symm.trans hquiet)
  rw [List.length_append, List.length_cons] at hlength
  omega

theorem Lays.of_cons {position : Nat} {before after : State} {shape : Shape}
    (hlays : Lays position before after) (hbuilt : after.built = shape :: before.built) :
    shape = .token position := by
  obtain ⟨added, hadded, hmem⟩ := hlays
  have hone : [shape] = added := List.append_cancel_right (hbuilt.symm.trans hadded)
  subst hone
  exact (List.mem_singleton.mp hmem).symm

theorem Lays.not_of_built {position : Nat} {before after : State} (hlays : Lays position before after) :
    after.built ≠ before.built := by
  obtain ⟨added, hadded, hmem⟩ := hlays
  intro hbuilt
  have hnone : [] = added := List.append_cancel_right (hbuilt.symm.trans hadded)
  subst hnone
  cases hmem

theorem built_node (session : Session) (levels : Nat) (mode : Mode) (kind : NodeKind)
    (recovery : Lookahead) (state : State) : ∃ children,
      (node session levels mode kind recovery state).built =
        .node kind state.position children :: state.built := by
  cases levels <;> exact ⟨_, rfl⟩

theorem position_of_once {session : Session} (hreuse : session.reuse = false) {levels : Nat}
    {place : Place} {symbols : List Symbol} (hslot : place.slot = .many symbols) {state : State}
    (recovery : Lookahead) {position : Nat}
    (hlays : Lays position state (once (node session levels) session .actual place recovery state)) :
    position = state.position := by
  rw [once_eq hslot, chooseOrReport] at hlays
  rcases choose_afresh hreuse (node session levels) .actual place.parts recovery state with
    heq | ⟨part, -, -, touched, heq⟩
  · rw [heq] at hlays
    dsimp only at hlays
    by_cases hlast : (state.look session).lastReport = some (state.look session).position
    · rw [State.missing_of_reported hlast, State.look_eq] at hlays
      exact absurd rfl hlays.not_of_built
    · rw [State.missing_of_unreported hlast, State.look_eq] at hlays
      cases hlays.of_cons rfl
  · rw [heq] at hlays
    dsimp only at hlays
    have hbump : Lays position state (State.bump { state with touched := state.touched || touched }) →
        position = state.position := by
      intro hlays
      unfold State.bump at hlays
      split at hlays
      · cases hlays.of_cons rfl
        rfl
      · exact absurd rfl hlays.not_of_built
    unfold element at hlays
    split at hlays
    · exact hbump hlays
    · exact hbump hlays
    · next kind _ =>
        obtain ⟨children, hbuilt⟩ := built_node session levels .actual kind recovery
          { state with touched := state.touched || touched }
        cases hlays.of_cons hbuilt

variable {left right : Session} {boundary : Nat} {origin : Origin} {place : Place} {levels : Nat}
  {symbols : List Symbol} {state other : State}

/-- Up to a token that is taken by itself, two repetitions take the same. -/
theorem matchAll_to_boundary (hagree : Agree left right ⟨0, boundary + 1, 0⟩)
    (hparts : ∀ part ∈ place.parts, part ∈ left.grammar.parts) (hslot : place.slot = .many symbols)
    (hkind : (left.stream.tokenAt boundary).kind ≠ .eof)
    (htakes : place.Takes (left.stream.tokenAt boundary)) (hboundary : boundary < left.stream.size)
    (hother : boundary < right.stream.size) (follow recovery : Lookahead) (rounds : Nat)
    (found : Bool) (h : Abreast left right ⟨0, boundary + 1, 0⟩ origin state other)
    (hleft : state.horizon = left.stream.size) (hright : other.horizon = right.stream.size)
    (hquiet : (matchAll (node left levels) left .actual place follow recovery rounds true found
      state).1.reports = state.reports)
    (hlays : Lays boundary state (matchAll (node left levels) left .actual place follow recovery
      rounds true found state).1) :
    ∃ rest before otherBefore, Abreast left right ⟨0, boundary + 1, 0⟩ origin before otherBefore ∧
      before.position = boundary ∧ before.horizon = left.stream.size ∧
      otherBefore.horizon = right.stream.size ∧ rounds + state.position ≤ rest + (boundary + 1) ∧
      matchAll (node left levels) left .actual place follow recovery rounds true found state =
        matchAll (node left levels) left .actual place follow recovery rest true true before.bump ∧
      matchAll (node right levels) right .actual place follow recovery rounds true found other =
        matchAll (node right levels) right .actual place follow recovery rest true true
          otherBefore.bump := by
  have hfinal := hagree.leftFinal
  have hreuse := hagree.leftReuse
  have hgrows := respected_grows left .actual
  have hcovers := respected_covered left
  have hcovered := respected_covered right
  have hbelow := h.below
  have hposition := h.position
  change state.position < boundary + 1 at hbelow
  change other.position = state.position + 0 at hposition
  induction rounds generalizing found state other with
  | zero => exact absurd rfl hlays.not_of_built
  | succ rounds ih =>
      have hahead : state.position < state.horizon := by omega
      have hotherAhead : other.position < other.horizon := by omega
      by_cases hplace : state.position = boundary
      · refine ⟨rounds, state, other, h, hplace, hleft, hright, by omega, ?_, ?_⟩
        · rw [← hplace] at hkind htakes
          exact matchAll_takes hslot hahead hkind htakes follow recovery rounds found
        · have hsame := hagree.token boundary (Nat.zero_le _) (Nat.lt_succ_self boundary)
          have hotherPlace : other.position = boundary + 0 := by omega
          change (left.stream.tokenAt boundary).Same (right.stream.tokenAt (boundary + 0)) at hsame
          rw [← hotherPlace] at hsame
          exact matchAll_takes hslot hotherAhead (hsame.kind ▸ hkind) (htakes.of_same hsame) follow
            recovery rounds found
      · have hcurrent := hagree.token state.position (Nat.zero_le _) hbelow
        change (left.stream.tokenAt state.position).Same
          (right.stream.tokenAt (state.position + 0)) at hcurrent
        rw [← hposition] at hcurrent
        rw [matchAll_round hslot hahead] at hquiet hlays ⊢
        rw [matchAll_round hslot hotherAhead, ← hcurrent.kind, ← hcurrent.admits_eq,
          ← hcurrent.admits_eq]
        split at hlays
        · exact absurd rfl hlays.not_of_built
        next hend =>
        rw [if_neg hend] at hquiet ⊢
        rw [if_neg hend]
        split at hlays
        · next hadmits =>
            rw [if_pos hadmits] at hquiet ⊢
            rw [if_pos hadmits]
            dsimp only at hlays hquiet ⊢
            have hfirst := hcovers.once hfinal hreuse (hcovers.node hfinal hreuse levels) hparts
              recovery state hleft (by omega)
            have hgrown := hgrows.once hfinal hreuse (hgrows.node hfinal hreuse levels) hparts
              recovery state
            have haligned := h.once hagree (hagree.nodes levels) (hagree.choices levels) hparts
              recovery
            have hotherFirst := hcovered.once hagree.rightFinal hagree.rightReuse
              (hcovered.node hagree.rightFinal hagree.rightReuse levels) (hagree.rightParts hparts)
              recovery other hright (by omega)
            have honce {position : Nat} (hlays : Lays position state
                (once (node left levels) left .actual place recovery state)) :
                position = state.position := position_of_once hreuse hslot recovery hlays
            generalize once (node left levels) left .actual place recovery state = next at *
            generalize once (node right levels) right .actual place recovery other = otherNext at *
            split at hlays
            · next hstill =>
                obtain ⟨-, hbound⟩ := hlays.bounds hfirst
                change boundary < next.position at hbound
                omega
            next hmoved =>
            rw [if_neg hmoved] at hquiet ⊢
            have hnext := hfirst.horizon.trans hleft
            obtain ⟨shapes, reports, -, -, hspan⟩ := hfirst.record
            have hsize := hspan.stop_le_size (by omega)
            have hle := hspan.start_le_stop
            have hrest := hcovers.matchAll hfinal hreuse (hcovers.node hfinal hreuse levels) hparts
              follow recovery rounds true true next hnext hsize
            have hreports := hgrown.quiet (hgrows.matchAll hfinal hreuse
              (hgrows.node hfinal hreuse levels) hparts follow recovery rounds true true next) hquiet
            rcases haligned with hnextAbreast | ⟨place, -, hfailed, -⟩ | ⟨hreached, -⟩
            · have hotherNext := hnextAbreast.position
              have hnextBelow := hnextAbreast.below
              change next.position < boundary + 1 at hnextBelow
              change otherNext.position = next.position + 0 at hotherNext
              rw [if_neg (by omega)]
              obtain ⟨rest, before, otherBefore, habreast, hbefore, hhorizon, hotherHorizon, hrounds,
                heq, hotherEq⟩ := ih true hnextAbreast hnext (hotherFirst.horizon.trans hright)
                  (hquiet.trans hreports.symm) (hlays.later hfirst hrest (by omega)) hnextBelow
                  hotherNext
              exact ⟨rest, before, otherBefore, habreast, hbefore, hhorizon, hotherHorizon,
                by omega, heq, hotherEq⟩
            · exact absurd (hreports.trans h.leftReports) hfailed.not_quiet
            · have hposition := hreached.position
              change boundary + 1 ≤ next.position at hposition
              exact absurd (honce (hlays.earlier hfirst hrest (by omega))).symm hplace
        · next hadmits =>
            rw [if_neg hadmits] at hquiet ⊢
            rw [if_neg hadmits]
            split at hlays
            · exact absurd rfl hlays.not_of_built
            · next hfollow =>
                rw [if_neg hfollow] at hquiet
                have hskipped := (hgrows.skip state recovery .unexpected hahead).quiet
                  (hgrows.matchAll hfinal hreuse (hgrows.node hfinal hreuse levels) hparts follow
                    recovery rounds true found _) hquiet
                exact absurd hskipped (List.cons_ne_self _ _)

end Parse

end LosslessTree
