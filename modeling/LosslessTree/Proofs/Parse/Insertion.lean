import LosslessTree.Proofs.Grammar.Brackets
import LosslessTree.Proofs.Parse.Acceptance
import LosslessTree.Proofs.Parse.Boundary

/-!
Tokens put into a block, behind an item that is a token by itself. Where the repetition of the items
passes over them, the block comes out as it was, but for what the passage adds in their place.
-/

namespace LosslessTree

namespace Parse

open Grammar

/-- The right stream has some more tokens than the left one, all of them behind one position. -/
structure Wedged (left right : Session) (boundary extent : Nat) : Prop where
  front : Agree left right ⟨0, boundary + 1, 0⟩
  back : Agree left right ⟨boundary + 1, left.stream.size + 1, extent⟩
  boundary_lt : boundary < left.stream.size
  extent_pos : 0 < extent

theorem Wedged.size {left right : Session} {boundary extent : Nat}
    (hwedged : Wedged left right boundary extent) :
    right.stream.size = left.stream.size + extent := by
  rcases hwedged.back.size with hsize | ⟨hlimit, -⟩
  · exact hsize
  · change left.stream.size + 1 ≤ left.stream.size at hlimit
    omega

/-- What is left of some tokens that a repetition passes over. -/
structure Passage where
  extent : Nat
  rounds : Nat
  added : List Shape
  report : Report

namespace Passage

def pass (passage : Passage) (state : State) : State :=
  { state with
    position := state.position + passage.extent
    built := passage.added ++ state.built
    reports := passage.report :: state.reports
    lastReport := some passage.report.position }

structure TakenAt (passage : Passage) (position : Nat) (enter : Enter) (session : Session)
    (place : Place) (follow : Lookahead) : Prop where
  passes : ∀ {state : State}, state.position = position → state.horizon = session.stream.size →
    ∀ rounds, matchAll enter session .actual place follow (recoveryOf place follow)
        (rounds + passage.rounds) true true state =
      matchAll enter session .actual place follow (recoveryOf place follow) rounds true true
        (passage.pass state)
  report_lt : passage.report.position < position + passage.extent

end Passage

def Origin.clear : Origin := ⟨[], [], [], []⟩

def Origin.behind (passage : Passage) (boundary : Nat) (front : List Shape) : Origin where
  leftBuilt := .token boundary :: front
  rightBuilt := passage.added ++ .token boundary :: front
  leftReports := []
  rightReports := [passage.report]

mutual

theorem shift_zero : ∀ shape : Shape, shape.shift 0 = shape
  | .token _ => rfl
  | .node kind position children => congrArg (Shape.node kind position) (shiftAll_zero children)
  | .error _ _ _ => rfl

theorem shiftAll_zero : ∀ shapes : List Shape, Shape.shiftAll 0 shapes = shapes
  | [] => rfl
  | shape :: rest => congrArg₂ List.cons (shift_zero shape) (shiftAll_zero rest)

end

variable {left right : Session} {overlap : Overlap} {origin : Origin} {state other : State}

theorem Abreast.built_clear {limit : Nat}
    (h : Abreast left right ⟨0, limit, 0⟩ .clear state other) : other.built = state.built := by
  obtain ⟨shapes, hleft, hright⟩ := h.built
  rw [hleft, hright, shiftAll_zero]
  rfl

theorem Aligned.abreast (h : Aligned left right overlap origin state other)
    (hquiet : state.reports = origin.leftReports) (hbelow : state.position < overlap.limit) :
    Abreast left right overlap origin state other := by
  rcases h with habreast | ⟨place, -, hfailed, -⟩ | ⟨hreached, -⟩
  · exact habreast
  · exact absurd hquiet hfailed.not_quiet
  · exact absurd hreached.position (Nat.not_le_of_gt hbelow)

theorem Covered.position_le {session : Session} {before after : State}
    (hcovered : Covered session before after) (hposition : before.position ≤ session.stream.size) :
    after.position ≤ session.stream.size := by
  obtain ⟨_, _, -, -, hcovers⟩ := hcovered.record
  exact hcovers.stop_le_size hposition

theorem Covered.quiet {session : Session} {before middle after : State}
    (hfirst : Covered session before middle) (hsecond : Covered session middle after)
    (hquiet : after.reports = []) : before.reports = [] ∧ middle.reports = [] := by
  obtain ⟨_, first, -, hmiddle, -⟩ := hfirst.record
  obtain ⟨_, second, -, hafter, -⟩ := hsecond.record
  rw [hquiet] at hafter
  have hnone := (List.append_eq_nil_iff.mp hafter.symm).2
  rw [hnone] at hmiddle
  exact ⟨(List.append_eq_nil_iff.mp hmiddle.symm).2, hnone⟩

theorem repeated_of_many {enter : Enter} {session : Session} {mode : Mode} {place : Place}
    {symbols : List Symbol} (hslot : place.slot = .many symbols) (follow : Lookahead)
    (state : State) :
    repeated enter session mode place follow state =
      (matchAll enter session mode place follow (recoveryOf place follow)
        (session.stream.size - state.position + 1) true false state).1 := by
  rw [repeated]
  simp [hslot, Slot.many]

section

variable {boundary levels : Nat} {passage : Passage} {place : Place} {symbols : List Symbol}
  {follow : Lookahead}

/-- Behind the passage the streams agree again. -/
theorem abreast_behind (hwedged : Wedged left right boundary passage.extent)
    (h : Abreast left right ⟨0, boundary + 1, 0⟩ .clear state other)
    (hposition : state.position = boundary) (hleft : state.horizon = left.stream.size)
    (hright : other.horizon = right.stream.size)
    (hreport : passage.report.position < boundary + 1 + passage.extent) :
    Abreast left right ⟨boundary + 1, left.stream.size + 1, passage.extent⟩
      (.behind passage boundary state.built) state.bump (passage.pass other.bump) := by
  have hsize := hwedged.size
  have hlt := hwedged.boundary_lt
  have hother : other.position = boundary := h.position.trans hposition
  rw [State.bump_of_ahead (by omega), State.bump_of_ahead (by omega), hposition, hother,
    h.built_clear]
  refine ⟨rfl, Nat.le_refl _, Nat.succ_lt_succ hlt, .inl ?_, h.leftBound, h.rightBound,
    h.leftReports, congrArg _ h.rightReports, fun place hplace => ?_, fun place hplace => ?_,
    [], rfl, rfl⟩
  · change other.horizon = state.horizon + passage.extent
    omega
  · have hfresh := h.leftFresh place hplace
    change place < boundary + 1
    omega
  · rw [← Option.some.inj hplace]
    exact hreport

/-- A repetition passes over what has been put in behind a token that it takes by itself. -/
theorem repeated_wedged (hwedged : Wedged left right boundary passage.extent)
    (hparts : ∀ part ∈ place.parts, part ∈ left.grammar.parts) (hslot : place.slot = .many symbols)
    (hkind : (left.stream.tokenAt boundary).kind ≠ .eof)
    (htakes : place.Takes (left.stream.tokenAt boundary))
    (hpassage : passage.TakenAt (boundary + 1) (node right levels) right place follow)
    (h : Abreast left right ⟨0, boundary + 1, 0⟩ .clear state other)
    (hleft : state.horizon = left.stream.size) (hright : other.horizon = right.stream.size)
    (hquiet : (repeated (node left levels) left .actual place follow state).reports = [])
    (hlays : Lays boundary state (repeated (node left levels) left .actual place follow state)) :
    ∃ front, Abreast left right ⟨boundary + 1, left.stream.size + 1, passage.extent⟩
      (.behind passage boundary front)
      (repeated (node left levels) left .actual place follow state)
      (repeated (node right levels) right .actual place follow other) := by
  have hagree := hwedged.front
  have hfinal := hagree.leftFinal
  have hreuse := hagree.leftReuse
  have hsize := hwedged.size
  have hlt := hwedged.boundary_lt
  have hposition : other.position = state.position := h.position
  have hbelow : state.position < boundary + 1 := h.below
  have hconfined := respected_confined left .actual
  rw [repeated_of_many hslot] at hquiet hlays ⊢
  rw [repeated_of_many hslot]
  -- Both get as many rounds as are enough for either, and for the passage.
  have hmore := matchAll_ample hfinal hreuse levels .actual hparts follow (recoveryOf place follow)
    (right.stream.size - other.position + 1 + passage.rounds) h.leftBound
  have hotherMore := matchAll_ample hagree.rightFinal hagree.rightReuse levels .actual
    (hagree.rightParts hparts) follow (recoveryOf place follow)
    (left.stream.size - state.position + 1 + passage.rounds) h.rightBound
  rw [Nat.add_left_comm] at hotherMore
  rw [← hmore] at hquiet hlays ⊢
  rw [← hotherMore]
  obtain ⟨rest, before, otherBefore, habreast, hbefore, hhorizon, hotherHorizon, hrounds, heq,
    hotherEq⟩ := matchAll_to_boundary hagree hparts hslot hkind htakes hlt (by omega) follow
      (recoveryOf place follow) _ false h hleft hright (hquiet.trans h.leftReports.symm) hlays
  obtain ⟨rounds, rfl⟩ := Nat.exists_eq_add_of_le' (show passage.rounds ≤ rest by omega)
  rw [heq] at hquiet ⊢
  rw [hotherEq]
  have hother : otherBefore.position = boundary := habreast.position.trans hbefore
  have hbump : before.bump.position = boundary + 1 ∧ before.bump.horizon = left.stream.size := by
    rw [State.bump_of_ahead (by omega)]
    exact ⟨congrArg (· + 1) hbefore, hhorizon⟩
  have hotherBump : otherBefore.bump.position = boundary + 1 ∧
      otherBefore.bump.horizon = right.stream.size := by
    rw [State.bump_of_ahead (by omega)]
    exact ⟨congrArg (· + 1) hother, hotherHorizon⟩
  have hforward := respected_forward left .actual
  have hfalling := respected_horizon left .actual
  rw [matchAll_of_enough hfinal
    (hforward.once hfinal hreuse (hforward.node hfinal hreuse levels) hparts _)
    (hfalling.once hfinal hreuse (hfalling.node hfinal hreuse levels) hparts _)
    follow passage.rounds true true (by omega)] at hquiet ⊢
  rw [hpassage.passes hotherBump.1 hotherBump.2]
  have hbehind := abreast_behind hwedged habreast hbefore hhorizon hotherHorizon hpassage.report_lt
  have hstop := (hconfined.matchAll hfinal hreuse (hconfined.node hfinal hreuse levels) hparts follow
    (recoveryOf place follow) rounds true true before.bump).2
  refine ⟨before.built, Aligned.abreast ?_ hquiet ?_⟩
  · exact (hbehind.matchAll hwedged.back (hwedged.back.nodes levels)
      (hwedged.back.choices levels) hparts follow (recoveryOf place follow) rounds true true).symm.imp And.left id
  · change _ < left.stream.size + 1
    omega

end

/-! ## Blocks -/

/-- What a slot lays without reports is of use to it. -/
theorem Lays.uses {session : Session} (hsound : session.grammar.Sound)
    (hfinal : session.stream.final.kind = .eof) (hreuse : session.reuse = false) {levels : Nat}
    {place : Place} (hplace : session.grammar.Has place) {recovery : Lookahead} {state : State}
    (hquiet : (slot (node session levels) session .actual place recovery state).lastReport = none)
    {position : Nat}
    (hlays : Lays position state (slot (node session levels) session .actual place recovery state)) :
    place.slot.Uses (Symbol.FitsShape session.stream) (.token position) := by
  have henters : Enters session True levels (node session levels) :=
    enters_node hsound hfinal hreuse levels
  obtain ⟨added, hbuilt, hfills, hconforms⟩ :=
    adds_slot hsound hfinal henters hreuse hplace recovery state fun _ => hquiet
  obtain ⟨shapes, hshapes, hmem⟩ := hlays
  rw [List.append_cancel_right (hshapes.symm.trans hbuilt)] at hmem
  rw [proper_eq_self hconforms] at hfills
  exact hfills.accepts.uses_of_mem (List.mem_reverse.mp hmem)

theorem kind_of_uses {stream : Stream} {kind : TokenKind} {slot : Slot}
    (hslot : slot = .all [.token kind]) {position : Nat}
    (huses : slot.Uses (Symbol.FitsShape stream) (.token position)) :
    (stream.tokenAt position).kind = kind := by
  subst hslot
  rcases huses with ⟨symbol, hsymbol, hfits⟩ | ⟨separator, hseparator, -⟩
  · obtain rfl := List.mem_singleton.mp hsymbol
    exact hfits
  · cases hseparator

section

variable {enter : Enter} {session : Session} {mode : Mode} {kind : NodeKind}
  {opening items closing : Place}

theorem body_of_block (hblock : session.grammar.IsBlock kind opening items closing)
    (recovery : Lookahead) (state : State) :
    body enter session mode kind recovery state =
      slot enter session mode closing recovery
        (repeated enter session mode items (items.follow.union recovery)
          (slot enter session mode opening recovery state)) := by
  obtain ⟨production, hproduction, hplaces⟩ := hblock.production
  obtain ⟨symbols, hitems⟩ := hblock.items
  have hslot (state : State) : slot enter session mode items recovery state =
      repeated enter session mode items (items.follow.union recovery) state := by
    rw [slot]
    simp [hitems, Slot.many]
  simp only [body, hproduction, hplaces, List.foldl_cons, List.foldl_nil, hslot]

end

section

variable {kind : NodeKind} {opening items closing : Place} {boundary levels : Nat}
  {passage : Passage} {recovery : Lookahead}

/-- Without reports, what is laid in a block and is no brace is laid by the repetition of its items. -/
theorem Lays.of_block {session : Session} (hsound : session.grammar.Sound)
    (hfinal : session.stream.final.kind = .eof) (hreuse : session.reuse = false)
    (hblock : session.grammar.IsBlock kind opening items closing)
    (hopen : (session.stream.tokenAt boundary).kind ≠ .leftBrace)
    (hclose : (session.stream.tokenAt boundary).kind ≠ .rightBrace)
    {state opened inner closed : State}
    (hopened : slot (node session levels) session .actual opening recovery state = opened)
    (hclosed : slot (node session levels) session .actual closing recovery inner = closed)
    (hfirst : Covered session state opened) (hsecond : Covered session opened inner)
    (hthird : Covered session inner closed) (hsilent : opened.lastReport = none)
    (hquiet : closed.lastReport = none) (hlays : Lays boundary state closed) :
    Lays boundary opened inner := by
  obtain ⟨hopening, -, hclosing⟩ := hblock.has
  have hrest := hlays.split hfirst (hsecond.trans hthird)
  subst hopened hclosed
  have hlater := hrest.resolve_left fun hlaid =>
    hopen (kind_of_uses hblock.opening (hlaid.uses hsound hfinal hreuse hopening hsilent))
  exact (hlater.split hsecond hthird).resolve_right fun hlaid =>
    hclose (kind_of_uses hblock.closing (hlaid.uses hsound hfinal hreuse hclosing hquiet))

/-- A block passes over what has been put in behind an item that is a token by itself. -/
theorem body_wedged (hwedged : Wedged left right boundary passage.extent)
    (hsound : left.grammar.Sound) (hblock : left.grammar.IsBlock kind opening items closing)
    (hend : (left.stream.tokenAt boundary).kind ≠ .eof)
    (hopen : (left.stream.tokenAt boundary).kind ≠ .leftBrace)
    (hclose : (left.stream.tokenAt boundary).kind ≠ .rightBrace)
    (htakes : items.Takes (left.stream.tokenAt boundary))
    (hpassage : passage.TakenAt (boundary + 1) (node right levels) right items
      (items.follow.union recovery))
    (h : Abreast left right ⟨0, boundary + 1, 0⟩ .clear state other)
    (hleft : state.horizon = left.stream.size) (hright : other.horizon = right.stream.size)
    (hquiet : (body (node left levels) left .actual kind recovery state).reports = [])
    (hsilent : (body (node left levels) left .actual kind recovery state).lastReport = none)
    (hlays : Lays boundary state (body (node left levels) left .actual kind recovery state)) :
    ∃ front, Abreast left right ⟨boundary + 1, left.stream.size + 1, passage.extent⟩
      (.behind passage boundary front)
      (body (node left levels) left .actual kind recovery state)
      (body (node right levels) right .actual kind recovery other) := by
  have hagree := hwedged.front
  have hback := hwedged.back
  have hfinal := hagree.leftFinal
  have hreuse := hagree.leftReuse
  have hlt := hwedged.boundary_lt
  have hbelow : state.position < boundary + 1 := h.below
  obtain ⟨hopening, hitems, hclosing⟩ := hblock.has
  obtain ⟨symbols, hmany⟩ := hblock.items
  rw [body_of_block hblock] at hquiet hsilent hlays ⊢
  rw [body_of_block (hagree.grammar ▸ hblock)]
  have hcovers := respected_covered left
  have hnode {kind : NodeKind} (hkind : left.grammar.Mentions kind) :=
    hcovers.node hfinal hreuse levels hkind
  have hfirst := hcovers.slot hfinal hreuse hnode hopening.parts recovery state hleft (by omega)
  have hopened := hfirst.position_le (by omega)
  have hstill := hfirst.horizon.trans hleft
  have hsecond := hcovers.repeated hfinal hreuse hnode hitems.parts (items.follow.union recovery)
    _ hstill hopened
  have hinner := hsecond.position_le hopened
  have hthird := hcovers.slot hfinal hreuse hnode hclosing.parts recovery _
    (hsecond.horizon.trans hstill) hinner
  have hsize := hwedged.size
  have hposition : other.position = state.position := h.position
  have hother := (respected_covered right).slot hagree.rightFinal hagree.rightReuse
    ((respected_covered right).node hagree.rightFinal hagree.rightReuse levels)
    (hagree.rightParts hopening.parts) recovery other hright (by omega)
  have hquiets := respected_quiet left
  have hsilentNode {kind : NodeKind} (hkind : left.grammar.Mentions kind) :=
    hquiets.node hfinal hreuse levels hkind
  have hinnerSilent := hquiets.slot hfinal hreuse hsilentNode hclosing.parts recovery _ hsilent
  have hopenedSilent := hquiets.repeated hfinal hreuse hsilentNode hitems.parts
    (items.follow.union recovery) _ hinnerSilent
  have hlaid := Lays.of_block hsound hfinal hreuse hblock hopen hclose rfl rfl hfirst hsecond hthird
    hopenedSilent hsilent hlays
  obtain ⟨hopenedQuiet, hinnerQuiet⟩ := hsecond.quiet hthird hquiet
  have hfirstAbreast := (h.slot hagree (hagree.nodes levels) (hagree.choices levels)
    hopening.parts recovery).abreast hopenedQuiet (Nat.lt_succ_of_le (hlaid.bounds hsecond).1)
  obtain ⟨front, hbehind⟩ := repeated_wedged hwedged hitems.parts hmany hend htakes hpassage
    hfirstAbreast hstill (hother.horizon.trans hright) hinnerQuiet hlaid
  refine ⟨front, (hbehind.slot hback (hback.nodes levels) (hback.choices levels) hclosing.parts
    recovery).abreast hquiet ?_⟩
  exact Nat.lt_succ_of_le (hthird.position_le hinner)

theorem position_le_of_node {session : Session} {state after : State} {position : Nat}
    {children : List Shape} (hcovered : Covered session state after)
    (hbuilt : after.built = .node kind position children :: state.built)
    (hmem : .token boundary ∈ children) : state.position ≤ boundary := by
  obtain ⟨shapes, reports, hshapes, -, hcovers⟩ := hcovered.record
  have hreverse : shapes.reverse = [.node kind position children] :=
    List.append_cancel_right (hshapes.symm.trans hbuilt)
  rw [List.reverse_eq_iff.mp hreverse] at hcovers
  cases hcovers with
  | node _ hchildren _ => exact (hchildren.token_mem hmem).1

theorem node_wedged (hwedged : Wedged left right boundary passage.extent)
    (hsound : left.grammar.Sound) (hblock : left.grammar.IsBlock kind opening items closing)
    (hend : (left.stream.tokenAt boundary).kind ≠ .eof)
    (hopen : (left.stream.tokenAt boundary).kind ≠ .leftBrace)
    (hclose : (left.stream.tokenAt boundary).kind ≠ .rightBrace)
    (htakes : items.Takes (left.stream.tokenAt boundary))
    (hpassage : passage.TakenAt (boundary + 1) (node right levels) right items
      (items.follow.union recovery))
    {total : Nat} (hlevels : total = levels + 1)
    (h : Abreast left right ⟨0, boundary + 1, 0⟩ .clear state other)
    (hleft : state.horizon = left.stream.size) (hright : other.horizon = right.stream.size)
    (hquiet : (node left total .actual kind recovery state).reports = [])
    (hsilent : (node left total .actual kind recovery state).lastReport = none)
    {position : Nat} {children : List Shape}
    (hbuilt : (node left total .actual kind recovery state).built =
      .node kind position children :: state.built) (hmem : .token boundary ∈ children) :
    ∃ before behind, children = before ++ .token boundary :: behind ∧
      (node right total .actual kind recovery other).built =
        .node kind position (before ++ .token boundary ::
          (passage.added.reverse ++ Shape.shiftAll passage.extent behind)) :: other.built ∧
      (node right total .actual kind recovery other).reports = [passage.report] ∧
      ((node left total .actual kind recovery state).current left).Same
        ((node right total .actual kind recovery other).current right) := by
  subst hlevels
  obtain ⟨hnode, -⟩ := List.cons.inj hbuilt
  obtain ⟨-, rfl, rfl⟩ := Shape.node.inj hnode
  have hlays : Lays boundary { state with built := [] }
      (body (node left levels) left .actual kind recovery { state with built := [] }) :=
    ⟨_, (List.append_nil _).symm, List.mem_reverse.mp hmem⟩
  obtain ⟨front, hbehind⟩ := body_wedged hwedged hsound hblock hend hopen hclose htakes hpassage
    h.inside hleft hright hquiet hsilent hlays
  obtain ⟨shapes, hshapes, hothers⟩ := hbehind.built
  refine ⟨front.reverse, shapes.reverse, ?_, ?_, hbehind.rightReports, hbehind.current hwedged.back⟩
  · rw [hshapes]
    simp [Origin.behind]
  · have hposition : other.position = state.position := h.position
    change Shape.node kind other.position _ :: other.built = _
    rw [hothers, hposition]
    simp [Origin.behind, Shape.shiftAll_eq_map]

end

/-! ## Whole texts -/

theorem run_of_quiet {session : Session} {start : NodeKind}
    (hsilent : (run session start).lastReport = none) :
    ((body (node session depthLimit) session .actual start (.ofKind .eof)
        (.initial session)).current session).kind = .eof := by
  unfold run at hsilent
  dsimp only at hsilent
  split at hsilent
  · next hend => simpa [State.atEnd, State.current_look] using hend
  · exact absurd hsilent (skip_not_quiet _ _ _)

theorem run_of_end {session : Session} {start : NodeKind}
    (hend : ((body (node session depthLimit) session .actual start (.ofKind .eof)
      (.initial session)).current session).kind = .eof) :
    run session start =
      (body (node session depthLimit) session .actual start (.ofKind .eof)
        (.initial session)).look session := by
  unfold run
  dsimp only
  rw [if_pos]
  rw [State.atEnd, State.current_look, hend]
  rfl

theorem slot_of_single {enter : Enter} {session : Session} {mode : Mode} {place : Place}
    {symbol : Symbol} (hslot : place.slot = .all [symbol]) {part : Part}
    (hparts : place.parts = [part]) (recovery : Lookahead) (state : State) :
    slot enter session mode place recovery state =
      expect enter session mode part (part.follow.union (place.follow.union recovery)) state := by
  simp [slot, required, expectAll, hslot, Slot.all, hparts]

theorem Abreast.initial {limit : Nat} (hagree : Agree left right ⟨0, limit, 0⟩)
    (hlimit : 0 < limit) :
    Abreast left right ⟨0, limit, 0⟩ .clear (.initial left) (.initial right) where
  position := rfl
  above := Nat.le_refl _
  below := hlimit
  horizon := hagree.size
  leftBound := Nat.le_refl _
  rightBound := Nat.le_refl _
  leftReports := rfl
  rightReports := rfl
  leftFresh _ hplace := nomatch hplace
  rightFresh _ hplace := nomatch hplace
  built := ⟨[], rfl, rfl⟩

def ahead (session : Session) (front : List Place) : State :=
  front.foldl (fun state place =>
    slot (node session depthLimit) session .actual place (.ofKind .eof) state) (.initial session)

theorem body_of_endsWith {session : Session} {start kind : NodeKind} {front : List Place}
    {last : Place} {part : Part} (hends : session.grammar.EndsWith start front last part kind) :
    body (node session depthLimit) session .actual start (.ofKind .eof) (.initial session) =
      expect (node session depthLimit) session .actual part
        (part.follow.union (last.follow.union (.ofKind .eof))) (ahead session front) := by
  obtain ⟨production, hproduction, hplaces⟩ := hends.production
  simp only [body, hproduction, hplaces, List.foldl_append, List.foldl_cons, List.foldl_nil]
  exact slot_of_single hends.slot hends.parts _ _

theorem body_of_fit {session : Session} {start kind : NodeKind} {front : List Place}
    {last : Place} {part : Part} (hends : session.grammar.EndsWith start front last part kind)
    (hfit : part.first.admits ((ahead session front).current session) = true ∨
      part.nullable = true) :
    body (node session depthLimit) session .actual start (.ofKind .eof) (.initial session) =
      node session depthLimit .actual kind (part.follow.union (last.follow.union (.ofKind .eof)))
        ((ahead session front).look session) := by
  rw [body_of_endsWith hends, expect_of_fit hfit, element, hends.symbol]

section

variable {start kind : NodeKind} {front : List Place} {opening items closing last : Place}
  {part : Part} {boundary levels : Nat} {passage : Passage}

/-- A text that ends with a block passes over what has been put into the block. -/
theorem run_wedged (hwedged : Wedged left right boundary passage.extent)
    (hsound : left.grammar.Sound) (hends : left.grammar.EndsWith start front last part kind)
    (hblock : left.grammar.IsBlock kind opening items closing)
    (hend : (left.stream.tokenAt boundary).kind ≠ .eof)
    (hopen : (left.stream.tokenAt boundary).kind ≠ .leftBrace)
    (hclose : (left.stream.tokenAt boundary).kind ≠ .rightBrace)
    (htakes : items.Takes (left.stream.tokenAt boundary)) (hlevels : depthLimit = levels + 1)
    (hpassage : passage.TakenAt (boundary + 1) (node right levels) right items
      (items.follow.union (part.follow.union (last.follow.union (.ofKind .eof)))))
    (hquiet : (run left start).reports = []) (hsilent : (run left start).lastReport = none)
    {position : Nat} {children heading : List Shape}
    (hbuilt : (run left start).built = .node kind position children :: heading)
    (hmem : .token boundary ∈ children) :
    ∃ before behind, children = before ++ .token boundary :: behind ∧
      (run right start).built = .node kind position (before ++ .token boundary ::
        (passage.added.reverse ++ Shape.shiftAll passage.extent behind)) :: heading ∧
      (run right start).reports = [passage.report] := by
  have hagree := hwedged.front
  have hfinal := hagree.leftFinal
  have hreuse := hagree.leftReuse
  have hother : right.grammar.EndsWith start front last part kind := hagree.grammar ▸ hends
  have hstop := run_of_quiet hsilent
  rw [run_of_end hstop, State.look_eq] at hquiet hsilent hbuilt
  dsimp only at hquiet hsilent hbuilt
  have henters : Enters left True depthLimit (node left depthLimit) :=
    enters_node hsound hfinal hreuse depthLimit
  have hfit : part.first.admits ((ahead left front).current left) = true ∨
      part.nullable = true := by
    rw [body_of_endsWith hends] at hsilent
    exact fits_of_expect_quiet henters hends.mem_parts _ _ hsilent
  rw [body_of_fit hends hfit] at hstop hquiet hsilent hbuilt
  obtain ⟨hplaces, -⟩ := hends.has
  have hparts : ∀ place ∈ front, ∀ part ∈ place.parts, part ∈ left.grammar.parts :=
    fun place hplace => (hplaces place hplace).parts
  have hcovers := respected_covered left
  have hfirst := hcovers.slots hfinal hreuse (hcovers.node hfinal hreuse depthLimit) hparts
    (.ofKind .eof) (.initial left) rfl (Nat.zero_le _)
  have hstill := hfirst.position_le (Nat.zero_le _)
  have hlook := hcovers.look (ahead left front) hfirst.horizon hstill
  have hnode := hcovers.node hfinal hreuse depthLimit hends.mentions
    (part.follow.union (last.follow.union (.ofKind .eof))) ((ahead left front).look left)
    (hlook.horizon.trans hfirst.horizon) (hlook.position_le hstill)
  have hotherCovers := respected_covered right
  have hotherFirst := hotherCovers.slots hagree.rightFinal hagree.rightReuse
    (hotherCovers.node hagree.rightFinal hagree.rightReuse depthLimit)
    (fun place hplace => hagree.rightParts (hparts place hplace)) (.ofKind .eof) (.initial right)
    rfl (Nat.zero_le _)
  have hotherLook := hotherCovers.look (ahead right front) hotherFirst.horizon
    (hotherFirst.position_le (Nat.zero_le _))
  obtain ⟨below, hbelow⟩ := built_node left depthLimit .actual kind
    (part.follow.union (last.follow.union (.ofKind .eof))) ((ahead left front).look left)
  obtain ⟨-, rfl⟩ := List.cons.inj (hbelow.symm.trans hbuilt)
  have hahead := position_le_of_node hnode hbuilt hmem
  rw [State.look_eq] at hahead
  have haligned := (Abreast.initial hagree (Nat.succ_pos boundary)).slots hagree
    (hagree.nodes depthLimit) (hagree.choices depthLimit) hparts (.ofKind .eof)
  have habreast : Abreast left right ⟨0, boundary + 1, 0⟩ .clear (ahead left front)
      (ahead right front) :=
    haligned.abreast (hfirst.quiet (hlook.trans hnode) hquiet).2 (Nat.lt_succ_of_le hahead)
  have hotherFit : part.first.admits ((ahead right front).current right) = true ∨
      part.nullable = true := by
    rwa [← (habreast.current hagree).admits_eq]
  obtain ⟨before, behind, hchildren, hotherBuilt, hreports, hcurrent⟩ := node_wedged hwedged hsound
    hblock hend hopen hclose htakes hpassage hlevels habreast.look
    (hlook.horizon.trans hfirst.horizon) (hotherLook.horizon.trans hotherFirst.horizon) hquiet
    hsilent hbuilt hmem
  rw [hcurrent.kind, ← body_of_fit hother hotherFit] at hstop
  rw [← body_of_fit hother hotherFit, habreast.look.built_clear] at hotherBuilt
  rw [← body_of_fit hother hotherFit] at hreports
  refine ⟨before, behind, hchildren, ?_, ?_⟩
  · rw [run_of_end hstop, State.look_eq]
    exact hotherBuilt
  · rw [run_of_end hstop, State.look_eq]
    exact hreports

end

/-! ## Single tokens -/

theorem State.skip_one {session : Session} {state : State} {stop : Lookahead}
    (hnext : state.position + 1 < state.horizon →
      stop.admits (session.stream.tokenAt (state.position + 1)) = true) (complaint : Complaint) :
    state.skip session .actual stop complaint = { state with
      position := state.position + 1
      built := .error stop state.position 1 :: state.built
      reports := ⟨state.position, 1, complaint, stop⟩ :: state.reports
      lastReport := some state.position } := by
  have hrun : runOutside session stop (state.horizon - (state.position + 1))
      (state.position + 1) = 0 := by
    cases hgap : state.horizon - (state.position + 1) with
    | zero => rfl
    | succ gap =>
        rw [runOutside, if_pos (hnext (by omega))]
  simp only [State.skip, hrun]
  rfl

/-- A token that fits nowhere, and an item behind it that is a token by itself. -/
def Passage.strayItem (position : Nat) (recovery : Lookahead) : Passage where
  extent := 2
  rounds := 2
  added := [.token (position + 1), .error recovery position 1]
  report := ⟨position, 1, .unexpected, recovery⟩

theorem Passage.strayItem_takenAt {enter : Enter} {session : Session} {place : Place}
    {symbols : List Symbol} (hslot : place.slot = .many symbols) {follow : Lookahead}
    {position : Nat} (hsize : position + 1 < session.stream.size)
    (hkind : (session.stream.tokenAt position).kind ≠ .eof)
    (hfirst : place.first.admits (session.stream.tokenAt position) = false)
    (hfollow : follow.admits (session.stream.tokenAt position) = false)
    (hitem : (session.stream.tokenAt (position + 1)).kind ≠ .eof)
    (htakes : place.Takes (session.stream.tokenAt (position + 1))) :
    (strayItem position (recoveryOf place follow)).TakenAt position enter session place follow where
  passes {state} hposition hhorizon rounds := by
    subst hposition
    have hrecovery : (recoveryOf place follow).admits
        (session.stream.tokenAt (state.position + 1)) = true := by
      have hseparator : place.slot.separator = none := by rw [hslot]; rfl
      rw [recoveryOf, hseparator, Lookahead.admits_union, htakes.admits, Bool.or_true]
    change matchAll enter session .actual place follow _ (rounds + 1 + 1) true true state = _
    rw [matchAll_stray hslot (by omega) hkind hfirst hfollow, State.skip_one fun _ => hrecovery]
    refine (matchAll_takes hslot ?_ hitem htakes follow _ rounds true).trans ?_
    · exact hhorizon ▸ hsize
    · rw [State.bump_of_ahead (hhorizon ▸ hsize)]
      rfl
  report_lt := Nat.lt_add_of_pos_right Nat.two_pos

end Parse

end LosslessTree
