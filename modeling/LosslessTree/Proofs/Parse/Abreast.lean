import LosslessTree.Proofs.Parse.Rounds
import LosslessTree.Proofs.Token.Same

/-!
Two parses that see the same tokens for a while. Between two places their streams agree, one of them
shifted against the other. As long as nothing is reported, both take the same branches. They part in
one of two ways: both report for the first time, at the same place, or both get to the limit before
they report anything.
-/

namespace LosslessTree

theorem Token.Same.admits_eq {left right : Token} (hsame : left.Same right) (set : Lookahead) :
    set.admits left = set.admits right := by
  rw [Lookahead.admits, Lookahead.admits, hsame.kind, hsame.text]

mutual

def Shape.shift (distance : Nat) : Shape → Shape
  | token position => token (position + distance)
  | node kind position children => node kind (position + distance) (shiftAll distance children)
  | error expected position extent => error expected (position + distance) extent

def Shape.shiftAll (distance : Nat) : List Shape → List Shape
  | [] => []
  | shape :: rest => shape.shift distance :: shiftAll distance rest

end

theorem Shape.shiftAll_eq_map (distance : Nat) (shapes : List Shape) :
    shiftAll distance shapes = shapes.map (shift distance) := by
  induction shapes with
  | nil => rfl
  | cons shape rest ih => rw [shiftAll, ih, List.map_cons]

namespace Parse

open Grammar

theorem matchAll_ample {session : Session} (hfinal : session.stream.final.kind = .eof)
    (hreuse : session.reuse = false) (levels : Nat) (mode : Mode) {place : Place}
    (hparts : ∀ part ∈ place.parts, part ∈ session.grammar.parts) (follow recovery : Lookahead)
    (extra : Nat) {state : State} (hbound : state.horizon ≤ session.stream.size) :
    matchAll (node session levels) session mode place follow recovery
        (session.stream.size - state.position + 1 + extra) true false state =
      matchAll (node session levels) session mode place follow recovery
        (session.stream.size - state.position + 1) true false state := by
  have hforward := respected_forward session mode
  have hhorizon := respected_horizon session mode
  exact matchAll_of_enough hfinal
    (hforward.once hfinal hreuse (hforward.node hfinal hreuse levels) hparts recovery)
    (hhorizon.once hfinal hreuse (hhorizon.node hfinal hreuse levels) hparts recovery)
    follow extra true false (by omega)

/-! ## What a parse adds to its reports -/

/-- Parsing goes forward, and reports what it comes across. -/
structure Grows (before after : State) : Prop where
  position : before.position ≤ after.position
  reports : ∃ newer, after.reports = newer ++ before.reports ∧
    ∀ report ∈ newer, before.position ≤ report.position

theorem Grows.refl (state : State) : Grows state state :=
  ⟨Nat.le_refl _, [], rfl, fun _ hreport => absurd hreport List.not_mem_nil⟩

theorem Grows.trans {first second third : State} (hfirst : Grows first second)
    (hsecond : Grows second third) : Grows first third := by
  obtain ⟨hposition, newer, hreports, hnewer⟩ := hfirst
  obtain ⟨hmore, newest, hnewest, hlater⟩ := hsecond
  refine ⟨Nat.le_trans hposition hmore, newest ++ newer, by rw [hnewest, hreports,
    List.append_assoc], List.forall_mem_append.mpr ⟨fun report hreport => ?_, hnewer⟩⟩
  exact Nat.le_trans hposition (hlater report hreport)

theorem Grows.rebuilt (state : State) (built : List Shape) : Grows state { state with built } :=
  ⟨Nat.le_refl _, [], rfl, fun _ hreport => absurd hreport List.not_mem_nil⟩

theorem respected_grows (session : Session) (mode : Mode) : Respected session mode Grows where
  refl := .refl
  trans := .trans
  touch state _ := ⟨Nat.le_refl _, [], rfl, fun _ hreport => absurd hreport List.not_mem_nil⟩
  bump state hahead := by
    rw [State.bump_of_ahead hahead]
    exact ⟨Nat.le_succ _, [], rfl, fun _ hreport => absurd hreport List.not_mem_nil⟩
  skip state stop complaint hahead := by
    cases mode with
    | actual => exact ⟨Nat.le_add_right _ _, [_], rfl, by simp⟩
    | trial => exact ⟨Nat.le_refl _, [_], rfl, by simp⟩
  missing state expected what := by
    by_cases hlast : state.lastReport = some state.position
    · rw [State.missing_of_reported hlast]
      exact .refl state
    · rw [State.missing_of_unreported hlast]
      exact ⟨Nat.le_refl _, [_], rfl, by simp⟩
  nest _ _ _ _ hinner := ⟨hinner.position, hinner.reports⟩

def FailedAt (base : List Report) (place : Nat) (state : State) : Prop :=
  ∃ newer report, state.reports = newer ++ report :: base ∧ report.position = place

/-- A place has been reached, and all reports since some others are there or further on. -/
structure Reached (base : List Report) (place : Nat) (state : State) : Prop where
  position : place ≤ state.position
  reports : ∃ newer, state.reports = newer ++ base ∧ ∀ report ∈ newer, place ≤ report.position

theorem FailedAt.grows {base : List Report} {place : Nat} {before after : State}
    (hfailed : FailedAt base place before) (hgrows : Grows before after) :
    FailedAt base place after := by
  obtain ⟨newer, report, hreports, hplace⟩ := hfailed
  obtain ⟨newest, hafter, -⟩ := hgrows.reports
  exact ⟨newest ++ newer, report, by rw [hafter, hreports, List.append_assoc], hplace⟩

theorem Reached.grows {base : List Report} {place : Nat} {before after : State}
    (hreached : Reached base place before) (hgrows : Grows before after) :
    Reached base place after := by
  obtain ⟨hposition, newer, hreports, hnewer⟩ := hreached
  obtain ⟨hmore, newest, hafter, hlater⟩ := hgrows
  refine ⟨Nat.le_trans hposition hmore, newest ++ newer, by rw [hafter, hreports,
    List.append_assoc], List.forall_mem_append.mpr ⟨fun report hreport => ?_, hnewer⟩⟩
  exact Nat.le_trans hposition (hlater report hreport)

/-! ## Abreast and parted -/

/-- The positions of one stream whose tokens the other has as well, so many positions further on. -/
structure Overlap where
  base : Nat
  limit : Nat
  shift : Nat

/-- Bounds for two parses: the same up to the shift, or both beyond the limit. -/
def Tied (overlap : Overlap) (left right : Nat) : Prop :=
  right = left + overlap.shift ∨ overlap.limit ≤ left ∧ overlap.limit + overlap.shift ≤ right

structure Agree (left right : Session) (overlap : Overlap) : Prop where
  grammar : right.grammar = left.grammar
  window : right.window = left.window
  size : Tied overlap left.stream.size right.stream.size
  token : ∀ position, overlap.base ≤ position → position < overlap.limit →
    (left.stream.tokenAt position).Same (right.stream.tokenAt (position + overlap.shift))
  final : left.stream.final.Same right.stream.final
  leftFinal : left.stream.final.kind = .eof
  leftReuse : left.reuse = false
  rightReuse : right.reuse = false

/-- What has been built and reported before two parses are compared. -/
structure Origin where
  leftBuilt : List Shape
  rightBuilt : List Shape
  leftReports : List Report
  rightReports : List Report

def Origin.inside (origin : Origin) : Origin := { origin with leftBuilt := [], rightBuilt := [] }

/-- The same has been built since, and nothing has been reported. -/
structure Abreast (left right : Session) (overlap : Overlap) (origin : Origin)
    (state other : State) : Prop where
  position : other.position = state.position + overlap.shift
  above : overlap.base ≤ state.position
  below : state.position < overlap.limit
  horizon : Tied overlap state.horizon other.horizon
  leftBound : state.horizon ≤ left.stream.size
  rightBound : other.horizon ≤ right.stream.size
  leftReports : state.reports = origin.leftReports
  rightReports : other.reports = origin.rightReports
  leftFresh : ∀ place, state.lastReport = some place → place < state.position
  rightFresh : ∀ place, other.lastReport = some place → place < other.position
  built : ∃ shapes, state.built = shapes ++ origin.leftBuilt ∧
    other.built = Shape.shiftAll overlap.shift shapes ++ origin.rightBuilt

/-- Both have reported for the first time at the same place, or both have reached the limit. -/
def Parted (overlap : Overlap) (origin : Origin) (state other : State) : Prop :=
  (∃ place < overlap.limit, FailedAt origin.leftReports place state ∧
      FailedAt origin.rightReports (place + overlap.shift) other) ∨
    Reached origin.leftReports overlap.limit state ∧
      Reached origin.rightReports (overlap.limit + overlap.shift) other

/-- Two parses that went abreast so far, or have parted. -/
def Aligned (left right : Session) (overlap : Overlap) (origin : Origin) (state other : State) :
    Prop :=
  Abreast left right overlap origin state other ∨ Parted overlap origin state other

theorem Parted.grows {overlap : Overlap} {origin : Origin} {state other after otherAfter : State}
    (hparted : Parted overlap origin state other) (hleft : Grows state after)
    (hright : Grows other otherAfter) : Parted overlap origin after otherAfter := by
  rcases hparted with ⟨place, hplace, hfailed, hother⟩ | ⟨hreached, hother⟩
  · exact .inl ⟨place, hplace, hfailed.grows hleft, hother.grows hright⟩
  · exact .inr ⟨hreached.grows hleft, hother.grows hright⟩

variable {left right : Session} {overlap : Overlap} {origin : Origin}
  {leftMode rightMode : Mode}

theorem Tied.min {first second third fourth : Nat} (hfirst : Tied overlap first second)
    (hsecond : Tied overlap third fourth) :
    Tied overlap (min first third) (min second fourth) := by
  unfold Tied at *
  omega

namespace Abreast

variable {state other : State} (h : Abreast left right overlap origin state other)
  (hagree : Agree left right overlap)

include h

theorem ahead (hbelow : state.position < overlap.limit := h.below) :
    state.position < state.horizon ↔ other.position < other.horizon := by
  have hposition := h.position
  have hhorizon := h.horizon
  unfold Tied at hhorizon
  omega

include hagree in
theorem current : (state.current left).Same (other.current right) := by
  have hahead := h.ahead
  unfold State.current
  by_cases hleft : state.position < state.horizon
  · rw [if_pos hleft, if_pos (hahead.mp hleft), h.position]
    exact hagree.token _ h.above h.below
  · rw [if_neg hleft, if_neg (mt hahead.mpr hleft)]
    exact hagree.final

theorem look : Abreast left right overlap origin (state.look left) (other.look right) := by
  rw [State.look_eq, State.look_eq]
  exact ⟨h.position, h.above, h.below, h.horizon, h.leftBound, h.rightBound, h.leftReports,
    h.rightReports, h.leftFresh, h.rightFresh, h.built⟩

theorem bump : Aligned left right overlap origin state.bump other.bump := by
  by_cases hahead : state.position < state.horizon
  · rw [State.bump_of_ahead hahead, State.bump_of_ahead (h.ahead.mp hahead)]
    obtain ⟨shapes, hleft, hright⟩ := h.built
    by_cases hlast : state.position + 1 < overlap.limit
    · left
      refine ⟨?_, Nat.le_succ_of_le h.above, hlast, h.horizon, h.leftBound, h.rightBound,
        h.leftReports, h.rightReports,
        fun place hplace => Nat.lt_succ_of_lt (h.leftFresh place hplace),
        fun place hplace => Nat.lt_succ_of_lt (h.rightFresh place hplace),
        .token state.position :: shapes, congrArg _ hleft, ?_⟩
      · change other.position + 1 = state.position + 1 + overlap.shift
        rw [h.position]
        omega
      · change Shape.token other.position :: other.built = _
        rw [hright, h.position]
        rfl
    · right
      right
      have hposition := h.position
      refine ⟨⟨?_, [], h.leftReports, fun _ hreport => absurd hreport List.not_mem_nil⟩,
        ⟨?_, [], h.rightReports, fun _ hreport => absurd hreport List.not_mem_nil⟩⟩
      · exact Nat.le_of_not_lt hlast
      · change overlap.limit + overlap.shift ≤ other.position + 1
        omega
  · rw [State.bump_of_behind hahead, State.bump_of_behind (mt h.ahead.mpr hahead)]
    exact .inl h

theorem skip (leftMode rightMode : Mode) (stop : Lookahead) (complaint : Complaint) :
    Parted overlap origin (state.skip left leftMode stop complaint)
      (other.skip right rightMode stop complaint) := by
  have hreported (session : Session) (mode : Mode) (state : State) :
      ∃ report : Report, report.position = state.position ∧
        (state.skip session mode stop complaint).reports = report :: state.reports := by
    cases mode <;> exact ⟨_, rfl, rfl⟩
  obtain ⟨report, hreport, hleft⟩ := hreported left leftMode state
  obtain ⟨otherReport, hother, hright⟩ := hreported right rightMode other
  refine .inl ⟨state.position, h.below, ⟨[], report, ?_, hreport⟩, ⟨[], otherReport, ?_, ?_⟩⟩
  · rw [hleft, h.leftReports, List.nil_append]
  · rw [hright, h.rightReports, List.nil_append]
  · rw [hother, h.position]

theorem missing (leftMode rightMode : Mode) (expected : Lookahead) (what : String) :
    Parted overlap origin (state.missing leftMode expected what)
      (other.missing rightMode expected what) := by
  have hleft : state.lastReport ≠ some state.position := fun hlast =>
    Nat.lt_irrefl _ (h.leftFresh _ hlast)
  have hright : other.lastReport ≠ some other.position := fun hlast =>
    Nat.lt_irrefl _ (h.rightFresh _ hlast)
  rw [State.missing_of_unreported hleft, State.missing_of_unreported hright]
  exact .inl ⟨state.position, h.below, ⟨[], _, congrArg _ h.leftReports, rfl⟩,
    [], ⟨other.position, 0, .missing what, expected⟩, congrArg _ h.rightReports, h.position⟩

theorem inside : Abreast left right overlap origin.inside { state with built := [] }
    { other with built := [] } :=
  ⟨h.position, h.above, h.below, h.horizon, h.leftBound, h.rightBound, h.leftReports,
    h.rightReports, h.leftFresh, h.rightFresh, [], rfl, rfl⟩

theorem outside (kind : NodeKind) {inner innerOther : State}
    (hinner : Aligned left right overlap origin.inside inner innerOther) :
    Aligned left right overlap origin
      { inner with built := .node kind state.position inner.built.reverse :: state.built }
      { innerOther with
        built := .node kind other.position innerOther.built.reverse :: other.built } := by
  rcases hinner with hi | hparted
  · left
    obtain ⟨shapes, hleft, hright⟩ := h.built
    obtain ⟨children, hchildren, hothers⟩ := hi.built
    refine ⟨hi.position, hi.above, hi.below, hi.horizon, hi.leftBound, hi.rightBound,
      hi.leftReports, hi.rightReports, hi.leftFresh, hi.rightFresh,
      .node kind state.position children.reverse :: shapes, ?_, ?_⟩
    · simp only [hchildren, hleft, Origin.inside, List.append_nil, List.cons_append]
    · simp only [hothers, hright, Origin.inside, List.append_nil, Shape.shiftAll, Shape.shift,
        h.position, Shape.shiftAll_eq_map, List.map_reverse, List.cons_append]
  · exact .inr (hparted.grows (.rebuilt _ _) (.rebuilt _ _))

end Abreast

theorem Aligned.next {state other after otherAfter : State}
    (hfirst : Aligned left right overlap origin state other)
    (hleft : Grows state after) (hright : Grows other otherAfter)
    (hnext : Abreast left right overlap origin state other →
      Aligned left right overlap origin after otherAfter) :
    Aligned left right overlap origin after otherAfter :=
  hfirst.elim hnext fun hparted => .inr (hparted.grows hleft hright)

namespace Agree

variable (hagree : Agree left right overlap) {levels : Nat}

include hagree

theorem rightFinal : right.stream.final.kind = .eof := hagree.final.kind ▸ hagree.leftFinal

theorem leftNode {kind : NodeKind} (hkind : left.grammar.Mentions kind) (recovery : Lookahead)
    (state : State) : Grows state (node left levels leftMode kind recovery state) :=
  (respected_grows left leftMode).node hagree.leftFinal hagree.leftReuse levels hkind recovery state

theorem rightNode {kind : NodeKind} (hkind : right.grammar.Mentions kind) (recovery : Lookahead)
    (state : State) : Grows state (node right levels rightMode kind recovery state) :=
  (respected_grows right rightMode).node hagree.rightFinal hagree.rightReuse levels hkind recovery
    state

theorem rightParts {parts : List Part} (hparts : ∀ part ∈ parts, part ∈ left.grammar.parts) :
    ∀ part ∈ parts, part ∈ right.grammar.parts := by
  rwa [hagree.grammar]

end Agree

namespace Abreast

variable {levels : Nat}

section

variable (hagree : Agree left right overlap)
  (hnode : ∀ {kind}, left.grammar.Mentions kind → ∀ recovery {origin state other},
    Abreast left right overlap origin state other →
    Aligned left right overlap origin (node left levels leftMode kind recovery state)
      (node right levels rightMode kind recovery other))
  (hspeculate : ∀ {candidates : List Part}, candidates ≠ [] →
    (∀ part ∈ candidates, part ∈ left.grammar.parts) → ∀ recovery {origin state other},
    Abreast left right overlap origin state other →
    Aligned left right overlap origin
      (speculate (node left levels) left leftMode candidates recovery state)
      (speculate (node right levels) right rightMode candidates recovery other))
  {state other : State}

include hnode

theorem element {part : Part} (hpart : part ∈ left.grammar.parts) (recovery : Lookahead)
    (h : Abreast left right overlap origin state other) :
    Aligned left right overlap origin
      (element (node left levels) leftMode part recovery state)
      (element (node right levels) rightMode part recovery other) := by
  unfold Parse.element
  split
  · exact h.bump
  · exact h.bump
  · next hsymbol => exact hnode ⟨part, hpart, hsymbol⟩ recovery h

omit hnode in
theorem placeholder (part : Part) (h : Abreast left right overlap origin state other) :
    Parted overlap origin (placeholder leftMode part state)
      (placeholder rightMode part other) := by
  unfold Parse.placeholder
  dsimp only
  have hmissing := h.missing leftMode rightMode part.first part.symbol.describe
  split
  · exact hmissing.grows (.rebuilt _ _) (.rebuilt _ _)
  · exact hmissing

include hagree hspeculate

theorem choose {parts : List Part} (hparts : ∀ part ∈ parts, part ∈ left.grammar.parts)
    (recovery : Lookahead) (h : Abreast left right overlap origin state other) :
    (choose (node left levels) left leftMode parts recovery state).2 =
        (choose (node right levels) right rightMode parts recovery other).2 ∧
      Aligned left right overlap origin
        (choose (node left levels) left leftMode parts recovery state).1
        (choose (node right levels) right rightMode parts recovery other).1 := by
  have hcurrent := h.look.current hagree
  have hfilter : parts.filter (·.first.admits ((other.look right).current right)) =
      parts.filter (·.first.admits ((state.look left).current left)) :=
    List.filter_congr fun part _ => (hcurrent.admits_eq part.first).symm
  unfold Parse.choose
  dsimp only
  rw [hfilter]
  split
  · split
    · next hfind =>
        exact ⟨rfl, h.look.element hnode (hparts _ (List.mem_of_find?_eq_some hfind)) recovery⟩
    · exact ⟨rfl, .inl h.look⟩
  · next part hfilter =>
      have hpart : part ∈ parts := (List.mem_filter.mp (hfilter ▸ List.mem_singleton.mpr rfl)).1
      exact ⟨rfl, h.look.element hnode (hparts part hpart) recovery⟩
  · next hcandidates _ =>
      exact ⟨rfl, hspeculate hcandidates
        (fun part hpart => hparts part (List.mem_filter.mp hpart).1) recovery h.look⟩

theorem chooseOrReport {place : Place}
    (hparts : ∀ part ∈ place.parts, part ∈ left.grammar.parts) (recovery : Lookahead)
    (h : Abreast left right overlap origin state other) :
    Aligned left right overlap origin
      (chooseOrReport (node left levels) left leftMode place recovery state)
      (chooseOrReport (node right levels) right rightMode place recovery other) := by
  obtain ⟨hfound, hchoose⟩ := h.choose hagree hnode hspeculate hparts recovery
  unfold Parse.chooseOrReport
  rcases hl : Parse.choose (node left levels) left leftMode place.parts recovery state with
    ⟨after, found⟩
  rcases hr : Parse.choose (node right levels) right rightMode place.parts recovery other with
    ⟨otherAfter, otherFound⟩
  rw [hl, hr] at hfound hchoose
  obtain rfl : found = otherFound := hfound
  cases found with
  | true => exact hchoose
  | false =>
      exact hchoose.next ((respected_grows left leftMode).missing _ _ _)
        ((respected_grows right rightMode).missing _ _ _) fun h => .inr (h.missing _ _ _ _)

omit hspeculate in
theorem expect {part : Part} (hpart : part ∈ left.grammar.parts) (follow : Lookahead)
    (h : Abreast left right overlap origin state other) :
    Aligned left right overlap origin
      (expect (node left levels) left leftMode part follow state)
      (expect (node right levels) right rightMode part follow other) := by
  have hright : part ∈ right.grammar.parts := hagree.grammar ▸ hpart
  have hcurrent := h.look.current hagree
  unfold Parse.expect
  dsimp only
  rw [← hcurrent.admits_eq, ← hcurrent.admits_eq, ← hcurrent.kind]
  split
  · exact h.look.element hnode hpart follow
  · split
    · exact .inr (h.look.placeholder part)
    · -- Both have reported now, so it does not matter how they go on.
      refine .inr ((h.look.skip leftMode rightMode (part.first.union follow) .unexpected).grows
        ?_ ?_)
      · have hleft := respected_grows left leftMode
        refine (hleft.look _).trans ?_
        split
        · exact hleft.element hagree.leftNode hpart follow _
        · exact hleft.placeholder hpart _
      · have hother := respected_grows right rightMode
        refine (hother.look _).trans ?_
        split
        · exact hother.element hagree.rightNode hright follow _
        · exact hother.placeholder hright _

omit hspeculate in
theorem expectAll {parts : List Part} (hparts : ∀ part ∈ parts, part ∈ left.grammar.parts)
    (follow : Lookahead) (h : Abreast left right overlap origin state other) :
    Aligned left right overlap origin
      (expectAll (node left levels) left leftMode parts follow state)
      (expectAll (node right levels) right rightMode parts follow other) := by
  induction parts generalizing state other with
  | nil => exact .inl h
  | cons part rest ih =>
      obtain ⟨hpart, hrest⟩ := List.forall_mem_cons.mp hparts
      exact (h.expect hagree hnode hpart (part.follow.union follow)).next
        ((respected_grows left leftMode).expectAll hagree.leftFinal hagree.leftNode hrest follow _)
        ((respected_grows right rightMode).expectAll hagree.rightFinal hagree.rightNode
          (hagree.rightParts hrest) follow _) (ih hrest)

theorem once {place : Place} (hparts : ∀ part ∈ place.parts, part ∈ left.grammar.parts)
    (follow : Lookahead) (h : Abreast left right overlap origin state other) :
    Aligned left right overlap origin
      (once (node left levels) left leftMode place follow state)
      (once (node right levels) right rightMode place follow other) := by
  unfold Parse.once
  split
  · exact h.expectAll hagree hnode hparts follow
  · exact h.chooseOrReport hagree hnode hspeculate hparts follow

theorem required {place : Place} (hparts : ∀ part ∈ place.parts, part ∈ left.grammar.parts)
    (follow : Lookahead) (h : Abreast left right overlap origin state other) :
    Aligned left right overlap origin
      (required (node left levels) left leftMode place follow state)
      (required (node right levels) right rightMode place follow other) := by
  have hcurrent := h.look.current hagree
  unfold Parse.required
  split
  · exact h.expectAll hagree hnode hparts follow
  · dsimp only
    rw [← hcurrent.admits_eq, ← hcurrent.kind]
    split
    · exact h.look.chooseOrReport hagree hnode hspeculate hparts follow
    · exact .inr ((h.look.skip leftMode rightMode (place.first.union follow) .unexpected).grows
        ((respected_grows left leftMode).chooseOrReport hagree.leftReuse hagree.leftNode hparts
          follow _)
        ((respected_grows right rightMode).chooseOrReport hagree.rightReuse hagree.rightNode
          (hagree.rightParts hparts) follow _))

theorem optional {place : Place} (hparts : ∀ part ∈ place.parts, part ∈ left.grammar.parts)
    (follow : Lookahead) (h : Abreast left right overlap origin state other) :
    Aligned left right overlap origin
      (optional (node left levels) left leftMode place follow state)
      (optional (node right levels) right rightMode place follow other) := by
  have hcurrent := h.look.current hagree
  unfold Parse.optional
  dsimp only
  rw [← hcurrent.admits_eq, ← hcurrent.admits_eq, ← hcurrent.kind]
  split
  · exact h.look.once hagree hnode hspeculate hparts follow
  · split
    · exact .inl h.look
    · refine .inr ((h.look.skip leftMode rightMode (place.first.union follow) .unexpected).grows
        ?_ ?_)
      · have hleft := respected_grows left leftMode
        refine (hleft.look _).trans ?_
        split
        · exact hleft.once hagree.leftFinal hagree.leftReuse hagree.leftNode hparts follow _
        · exact .refl _
      · have hother := respected_grows right rightMode
        refine (hother.look _).trans ?_
        split
        · exact hother.once hagree.rightFinal hagree.rightReuse hagree.rightNode
            (hagree.rightParts hparts) follow _
        · exact .refl _

theorem matchAll {place : Place} (hparts : ∀ part ∈ place.parts, part ∈ left.grammar.parts)
    (follow recovery : Lookahead) (rounds : Nat) (expecting found : Bool)
    (h : Abreast left right overlap origin state other) :
    Parted overlap origin
        (matchAll (node left levels) left leftMode place follow recovery rounds expecting found
          state).1
        (matchAll (node right levels) right rightMode place follow recovery rounds expecting found
          other).1 ∨
      Abreast left right overlap origin
          (matchAll (node left levels) left leftMode place follow recovery rounds expecting found
            state).1
          (matchAll (node right levels) right rightMode place follow recovery rounds expecting found
            other).1 ∧
        (matchAll (node left levels) left leftMode place follow recovery rounds expecting found
            state).2 =
          (matchAll (node right levels) right rightMode place follow recovery rounds expecting
            found other).2 := by
  have hleft (rounds : Nat) (expecting found : Bool) (state : State) :
      Grows state (Parse.matchAll (node left levels) left leftMode place follow recovery rounds
        expecting found state).1 :=
    (respected_grows left leftMode).matchAll hagree.leftFinal hagree.leftReuse hagree.leftNode
      hparts follow recovery rounds expecting found state
  have hright (rounds : Nat) (expecting found : Bool) (state : State) :
      Grows state (Parse.matchAll (node right levels) right rightMode place follow recovery rounds
        expecting found state).1 :=
    (respected_grows right rightMode).matchAll hagree.rightFinal hagree.rightReuse hagree.rightNode
      (hagree.rightParts hparts) follow recovery rounds expecting found state
  induction rounds generalizing expecting found state other with
  | zero => exact .inr ⟨h, rfl⟩
  | succ rounds ih =>
      have hcurrent := h.look.current hagree
      unfold Parse.matchAll
      dsimp only
      rw [← hcurrent.admits_eq, ← hcurrent.admits_eq, ← hcurrent.kind]
      split
      · exact .inr ⟨h.look, rfl⟩
      · split
        · rcases h.look.bump with hnext | hparted
          · exact ih _ _ hnext
          · exact .inl (hparted.grows (hleft _ _ _ _) (hright _ _ _ _))
        · split
          · rcases h.look.once hagree hnode hspeculate hparts recovery with hnext | hparted
            · have hmoved : (Parse.once (node right levels) right rightMode place recovery
                    (other.look right)).position = (other.look right).position ↔
                  (Parse.once (node left levels) left leftMode place recovery
                    (state.look left)).position = (state.look left).position := by
                rw [hnext.position, h.look.position, Nat.add_right_cancel_iff]
              simp only [hmoved]
              split
              · exact .inr ⟨hnext, rfl⟩
              · exact ih _ _ hnext
            · refine .inl (hparted.grows ?_ ?_)
              · split
                · exact .refl _
                · exact hleft _ _ _ _
              · split
                · exact .refl _
                · exact hright _ _ _ _
          · split
            · exact .inr ⟨h.look, rfl⟩
            · exact .inl ((h.look.skip leftMode rightMode recovery .unexpected).grows
                (hleft _ _ _ _) (hright _ _ _ _))

theorem repeated {place : Place} (hparts : ∀ part ∈ place.parts, part ∈ left.grammar.parts)
    (follow : Lookahead) (h : Abreast left right overlap origin state other) :
    Aligned left right overlap origin
      (repeated (node left levels) left leftMode place follow state)
      (repeated (node right levels) right rightMode place follow other) := by
  -- The streams may differ in size, so both get as many rounds as are enough for either.
  have hleft := matchAll_ample hagree.leftFinal hagree.leftReuse levels leftMode hparts follow
    (recoveryOf place follow) (right.stream.size - other.position + 1) h.leftBound
  have hright := matchAll_ample hagree.rightFinal hagree.rightReuse levels rightMode
    (hagree.rightParts hparts) follow (recoveryOf place follow)
    (left.stream.size - state.position + 1) h.rightBound
  rw [Nat.add_comm] at hright
  have hmatch := h.matchAll hagree hnode hspeculate hparts follow (recoveryOf place follow)
    (left.stream.size - state.position + 1 + (right.stream.size - other.position + 1)) true false
  rw [hleft, hright] at hmatch
  unfold Parse.repeated
  dsimp only
  rcases hmatch with hparted | ⟨hnext, hfound⟩
  · refine .inr (hparted.grows ?_ ?_)
    · split
      · exact (respected_grows left leftMode).missing _ _ _
      · exact .refl _
    · split
      · exact (respected_grows right rightMode).missing _ _ _
      · exact .refl _
  · rw [← hfound]
    split
    · exact .inr (hnext.missing _ _ _ _)
    · exact .inl hnext

theorem slot {place : Place} (hparts : ∀ part ∈ place.parts, part ∈ left.grammar.parts)
    (recovery : Lookahead) (h : Abreast left right overlap origin state other) :
    Aligned left right overlap origin
      (slot (node left levels) left leftMode place recovery state)
      (slot (node right levels) right rightMode place recovery other) := by
  unfold Parse.slot
  dsimp only
  split
  · exact h.required hagree hnode hspeculate hparts _
  · exact h.optional hagree hnode hspeculate hparts _
  · exact h.repeated hagree hnode hspeculate hparts _
  · exact h.repeated hagree hnode hspeculate hparts _

theorem slots {places : List Place}
    (hparts : ∀ place ∈ places, ∀ part ∈ place.parts, part ∈ left.grammar.parts)
    (recovery : Lookahead) (h : Abreast left right overlap origin state other) :
    Aligned left right overlap origin
      (places.foldl (fun state place =>
        Parse.slot (node left levels) left leftMode place recovery state) state)
      (places.foldl (fun state place =>
        Parse.slot (node right levels) right rightMode place recovery state) other) := by
  induction places generalizing state other with
  | nil => exact .inl h
  | cons place rest ih =>
      obtain ⟨hplace, hrest⟩ := List.forall_mem_cons.mp hparts
      exact (h.slot hagree hnode hspeculate hplace recovery).next
        ((respected_grows left leftMode).slots hagree.leftFinal hagree.leftReuse hagree.leftNode
          hrest recovery _)
        ((respected_grows right rightMode).slots hagree.rightFinal hagree.rightReuse
          hagree.rightNode (fun place hplace => hagree.rightParts (hrest place hplace)) recovery _)
        (ih hrest)

theorem body (kind : NodeKind) (recovery : Lookahead)
    (h : Abreast left right overlap origin state other) :
    Aligned left right overlap origin
      (body (node left levels) left leftMode kind recovery state)
      (body (node right levels) right rightMode kind recovery other) := by
  unfold Parse.body
  rw [hagree.grammar]
  split
  · next hproduction =>
      exact h.slots hagree hnode hspeculate
        (fun _ hplace _ hpart => mem_parts hproduction hplace hpart) recovery
  · exact .inl h

end

theorem cut (hagree : Agree left right overlap) {state other : State}
    (h : Abreast left right overlap origin state other) :
    Aligned left right overlap origin (cut left leftMode state)
      (cut right rightMode other) := by
  have hcurrent := h.look.current hagree
  unfold Parse.cut
  dsimp only
  rw [State.atEnd, State.atEnd, ← hcurrent.kind]
  split
  · exact .inl h.look
  · exact .inr (h.look.skip leftMode rightMode _ _)

end Abreast

end Parse

end LosslessTree
