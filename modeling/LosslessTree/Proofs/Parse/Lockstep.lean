import LosslessTree.Proofs.Parse.Steps

/-!
Two parses side by side. As long as related states see the same token in front, both parses take
the same branches and their states stay related. The first of the two may get lost, that is, come
into a state about which nothing needs to be said any more.
-/

namespace LosslessTree

namespace Parse

open Grammar

/-- No set of a grammar tells apart what stands in front of both states: tokens that say the same, or
the end. -/
structure SameView (left right : Session) (state other : State) : Prop where
  ahead : state.position < state.horizon ↔ other.position < other.horizon
  kind : (state.current left).kind = (other.current right).kind
  admits (set : Lookahead) : set.admits (state.current left) = set.admits (other.current right)

theorem SameView.of_current {left right : Session} {state other : State}
    (hahead : state.position < state.horizon ↔ other.position < other.horizon)
    (hcurrent : state.current left = other.current right) : SameView left right state other :=
  ⟨hahead, congrArg Token.kind hcurrent, fun set => congrArg set.admits hcurrent⟩

/-- A relation between the states of two parses that the smallest steps keep. -/
structure Lockstep (left right : Session) (leftMode rightMode : Mode) (Lost : State → Prop)
    (Related : State → State → Prop) : Prop where
  lost : Respected left leftMode fun before after => Lost before → Lost after
  lost_built {state : State} (built : List Shape) : Lost state → Lost { state with built }
  position {state other : State} : Related state other → state.position = other.position
  look {state other : State} : Related state other →
    Lost (state.look left) ∨ Related (state.look left) (other.look right) ∧
      SameView left right (state.look left) (other.look right)
  bump {state other : State} : Related state other → SameView left right state other →
    Related state.bump other.bump
  skip {state other : State} (stop : Lookahead) (complaint : Complaint) :
    Related state other → SameView left right state other →
    Lost (state.skip left leftMode stop complaint) ∨
      Related (state.skip left leftMode stop complaint)
        (other.skip right rightMode stop complaint)
  missing {state other : State} (expected : Lookahead) (what : String) : Related state other →
    Lost (state.missing leftMode expected what) ∨
      Related (state.missing leftMode expected what) (other.missing rightMode expected what)
  inside {state other : State} : Related state other →
    Related { state with built := [] } { other with built := [] }
  outside {state other inner innerOther : State} (kind : NodeKind) : Related state other →
    Related inner innerOther →
    Related { inner with built := .node kind state.position inner.built.reverse :: state.built }
      { innerOther with
        built := .node kind other.position innerOther.built.reverse :: other.built }

/-- The repetitions of both parses come to what they come to with one number of rounds. -/
def SharedRounds (left right : Session) (leftMode rightMode : Mode) (leftEnter rightEnter : Enter)
    (Related : State → State → Prop) : Prop :=
  ∀ {place : Place}, (∀ part ∈ place.parts, part ∈ left.grammar.parts) →
    ∀ (follow recovery : Lookahead) {state other : State}, Related state other → ∃ rounds,
      matchAll leftEnter left leftMode place follow recovery
          (left.stream.size - state.position + 1) true false state =
        matchAll leftEnter left leftMode place follow recovery rounds true false state ∧
      matchAll rightEnter right rightMode place follow recovery
          (right.stream.size - other.position + 1) true false other =
        matchAll rightEnter right rightMode place follow recovery rounds true false other

theorem lost_or_related {Lost : State → Prop} {Related : State → State → Prop}
    {state after other otherAfter : State} (hfirst : Lost state ∨ Related state other)
    (hlost : Lost state → Lost after)
    (hrelated : Related state other → Lost after ∨ Related after otherAfter) :
    Lost after ∨ Related after otherAfter :=
  hfirst.elim (fun h => .inl (hlost h)) hrelated

namespace Lockstep

variable {left right : Session} {leftMode rightMode : Mode} {Lost : State → Prop}
  {Related : State → State → Prop} {leftEnter rightEnter : Enter}

theorem sharedRounds (h : Lockstep left right leftMode rightMode Lost Related)
    (hsize : left.stream.size = right.stream.size) :
    SharedRounds left right leftMode rightMode leftEnter rightEnter Related :=
  fun _ _ _ _ _ hstate => ⟨_, rfl, by rw [← hsize, ← h.position hstate]⟩

theorem nest (h : Lockstep left right leftMode rightMode Lost Related) {state other : State}
    (hstate : Related state other) (kind : NodeKind) {body otherBody : State → State}
    (hbody : Lost (body { state with built := [] }) ∨
      Related (body { state with built := [] }) (otherBody { other with built := [] })) :
    Lost (state.nest kind body) ∨ Related (state.nest kind body) (other.nest kind otherBody) :=
  hbody.imp (h.lost_built _) (h.outside kind hstate)

variable (h : Lockstep left right leftMode rightMode Lost Related)
  (hfinal : left.stream.final.kind = .eof) (hreuse : left.reuse = false)
  (hlost : ∀ {kind}, left.grammar.Mentions kind → ∀ recovery state, Lost state →
    Lost (leftEnter leftMode kind recovery state))
  (henter : ∀ {kind}, left.grammar.Mentions kind → ∀ recovery {state other}, Related state other →
    Lost (leftEnter leftMode kind recovery state) ∨
      Related (leftEnter leftMode kind recovery state) (rightEnter rightMode kind recovery other))
  (hspeculate : ∀ {candidates : List Part}, candidates ≠ [] →
    (∀ part ∈ candidates, part ∈ left.grammar.parts) → ∀ recovery {state other},
    Related state other → SameView left right state other →
    Lost (speculate leftEnter left leftMode candidates recovery state) ∨
      Related (speculate leftEnter left leftMode candidates recovery state)
        (speculate rightEnter right rightMode candidates recovery other))

include h henter

theorem element {part : Part} (hpart : part ∈ left.grammar.parts) (recovery : Lookahead)
    {state other : State}
    (hstate : Related state other) (hview : SameView left right state other) :
    Lost (element leftEnter leftMode part recovery state) ∨
      Related (element leftEnter leftMode part recovery state)
        (element rightEnter rightMode part recovery other) := by
  unfold Parse.element
  split
  · exact .inr (h.bump hstate hview)
  · exact .inr (h.bump hstate hview)
  · next hsymbol => exact henter ⟨part, hpart, hsymbol⟩ recovery hstate

omit henter in
theorem placeholder {part : Part} {state other : State} (hstate : Related state other) :
    Lost (placeholder leftMode part state) ∨
      Related (placeholder leftMode part state) (placeholder rightMode part other) := by
  unfold Parse.placeholder
  dsimp only
  split
  · next kind _ =>
      rcases h.missing part.first part.symbol.describe hstate with hl | hr
      · exact .inl (h.lost_built _ hl)
      · exact .inr (h.outside kind hr (h.inside hr))
  · exact h.missing _ _ hstate

include hlost hspeculate hreuse

theorem choose {parts : List Part} (hparts : ∀ part ∈ parts, part ∈ left.grammar.parts)
    (recovery : Lookahead) {state other : State} (hstate : Related state other) :
    Lost (choose leftEnter left leftMode parts recovery state).1 ∨
      Related (choose leftEnter left leftMode parts recovery state).1
          (choose rightEnter right rightMode parts recovery other).1 ∧
        (choose leftEnter left leftMode parts recovery state).2 =
          (choose rightEnter right rightMode parts recovery other).2 := by
  rcases h.look hstate with hl | ⟨hr, hview⟩
  · have hchoose := h.lost.choose hreuse hlost hparts recovery _ hl
    simp only [Parse.choose, State.look_look] at hchoose ⊢
    exact .inl hchoose
  · unfold Parse.choose
    dsimp only
    simp only [hview.admits]
    split
    · split
      · next hfind =>
          have hpart := hparts _ (List.mem_of_find?_eq_some hfind)
          exact (h.element henter hpart recovery hr hview).imp_right (⟨·, rfl⟩)
      · exact .inr ⟨hr, rfl⟩
    · next part hfilter =>
        have hpart : part ∈ parts :=
          (List.mem_filter.mp (hfilter ▸ List.mem_singleton.mpr rfl)).1
        exact (h.element henter (hparts part hpart) recovery hr hview).imp_right (⟨·, rfl⟩)
    · next hcandidates _ =>
        exact (hspeculate hcandidates (fun part hpart => hparts part (List.mem_filter.mp hpart).1)
          recovery hr hview).imp_right (⟨·, rfl⟩)

theorem chooseOrReport {place : Place}
    (hparts : ∀ part ∈ place.parts, part ∈ left.grammar.parts) (recovery : Lookahead)
    {state other : State} (hstate : Related state other) :
    Lost (chooseOrReport leftEnter left leftMode place recovery state) ∨
      Related (chooseOrReport leftEnter left leftMode place recovery state)
        (chooseOrReport rightEnter right rightMode place recovery other) := by
  have hchoose := h.choose hreuse hlost henter hspeculate hparts recovery hstate
  unfold Parse.chooseOrReport
  rcases hl : Parse.choose leftEnter left leftMode place.parts recovery state with ⟨after, found⟩
  rcases hr : Parse.choose rightEnter right rightMode place.parts recovery other with
    ⟨otherAfter, otherFound⟩
  rw [hl, hr] at hchoose
  cases found with
  | true =>
      rcases hchoose with hgone | ⟨hafter, rfl⟩
      · exact .inl hgone
      · exact .inr hafter
  | false =>
      rcases hchoose with hgone | ⟨hafter, rfl⟩
      · exact .inl (h.lost.missing _ _ _ hgone)
      · exact h.missing _ _ hafter

omit hspeculate hreuse in
include hfinal in
theorem expect {part : Part} (hpart : part ∈ left.grammar.parts) (follow : Lookahead)
    {state other : State} (hstate : Related state other) :
    Lost (expect leftEnter left leftMode part follow state) ∨
      Related (expect leftEnter left leftMode part follow state)
        (expect rightEnter right rightMode part follow other) := by
  rcases h.look hstate with hl | ⟨hr, hview⟩
  · have hexpect := h.lost.expect hfinal hlost hpart follow _ hl
    simp only [Parse.expect, State.look_look] at hexpect ⊢
    exact .inl hexpect
  · unfold Parse.expect
    dsimp only
    simp only [hview.kind, hview.admits]
    split
    · exact h.element henter hpart follow hr hview
    · split
      · exact h.placeholder hr
      · rcases h.skip (part.first.union follow) .unexpected hr hview with hl | hr
        · left
          have hlook := h.lost.look _ hl
          split
          · exact h.lost.element hlost hpart follow _ hlook
          · exact h.lost.placeholder hpart _ hlook
        · rcases h.look hr with hl | ⟨hr, hview⟩
          · left
            split
            · exact h.lost.element hlost hpart follow _ hl
            · exact h.lost.placeholder hpart _ hl
          · simp only [hview.admits]
            split
            · exact h.element henter hpart follow hr hview
            · exact h.placeholder hr

omit hspeculate hreuse in
include hfinal in
theorem expectAll {parts : List Part} (hparts : ∀ part ∈ parts, part ∈ left.grammar.parts)
    (follow : Lookahead) {state other : State} (hstate : Related state other) :
    Lost (expectAll leftEnter left leftMode parts follow state) ∨
      Related (expectAll leftEnter left leftMode parts follow state)
        (expectAll rightEnter right rightMode parts follow other) := by
  induction parts generalizing state other with
  | nil => exact .inr hstate
  | cons part rest ih =>
      obtain ⟨hpart, hrest⟩ := List.forall_mem_cons.mp hparts
      exact lost_or_related (h.expect hfinal hlost henter hpart _ hstate)
        (h.lost.expectAll hfinal hlost hrest follow _) (ih hrest)

include hfinal

theorem once {place : Place} (hparts : ∀ part ∈ place.parts, part ∈ left.grammar.parts)
    (follow : Lookahead) {state other : State} (hstate : Related state other) :
    Lost (once leftEnter left leftMode place follow state) ∨
      Related (once leftEnter left leftMode place follow state)
        (once rightEnter right rightMode place follow other) := by
  unfold Parse.once
  split
  · exact h.expectAll hfinal hlost henter hparts follow hstate
  · exact h.chooseOrReport hreuse hlost henter hspeculate hparts follow hstate

theorem required {place : Place} (hparts : ∀ part ∈ place.parts, part ∈ left.grammar.parts)
    (follow : Lookahead) {state other : State} (hstate : Related state other) :
    Lost (required leftEnter left leftMode place follow state) ∨
      Related (required leftEnter left leftMode place follow state)
        (required rightEnter right rightMode place follow other) := by
  have hlostTail := h.lost.chooseOrReport hreuse hlost hparts follow
  unfold Parse.required
  split
  · exact h.expectAll hfinal hlost henter hparts follow hstate
  · dsimp only
    refine lost_or_related ?_ (hlostTail _)
      (h.chooseOrReport hreuse hlost henter hspeculate hparts follow)
    rcases h.look hstate with hl | ⟨hr, hview⟩
    · left
      split
      · exact hl
      · next hstop =>
          refine h.lost.skip_of_current hfinal ?_ _ _ hl
          intro heof
          simp [heof] at hstop
    · simp only [hview.kind, hview.admits]
      split
      · exact .inr hr
      · exact h.skip _ _ hr hview

theorem optional {place : Place} (hparts : ∀ part ∈ place.parts, part ∈ left.grammar.parts)
    (follow : Lookahead) {state other : State} (hstate : Related state other) :
    Lost (optional leftEnter left leftMode place follow state) ∨
      Related (optional leftEnter left leftMode place follow state)
        (optional rightEnter right rightMode place follow other) := by
  have hlostOnce := h.lost.once hfinal hreuse hlost hparts follow
  rcases h.look hstate with hl | ⟨hr, hview⟩
  · have hoptional := h.lost.optional hfinal hreuse hlost hparts follow _ hl
    simp only [Parse.optional, State.look_look] at hoptional ⊢
    exact .inl hoptional
  · unfold Parse.optional
    dsimp only
    simp only [hview.kind, hview.admits]
    split
    · exact h.once hfinal hreuse hlost henter hspeculate hparts follow hr
    · split
      · exact .inr hr
      · rcases h.skip (place.first.union follow) .unexpected hr hview with hl | hr
        · left
          have hlook := h.lost.look _ hl
          split
          · exact hlostOnce _ hlook
          · exact hlook
        · rcases h.look hr with hl | ⟨hr, hview⟩
          · left
            split
            · exact hlostOnce _ hl
            · exact hl
          · simp only [hview.admits]
            split
            · exact h.once hfinal hreuse hlost henter hspeculate hparts follow hr
            · exact .inr hr

theorem matchAll {place : Place} (hparts : ∀ part ∈ place.parts, part ∈ left.grammar.parts)
    (follow recovery : Lookahead) (rounds : Nat) (expecting found : Bool) {state other : State}
    (hstate : Related state other) :
    Lost (matchAll leftEnter left leftMode place follow recovery rounds expecting found state).1 ∨
      Related
          (matchAll leftEnter left leftMode place follow recovery rounds expecting found state).1
          (matchAll rightEnter right rightMode place follow recovery rounds expecting found
            other).1 ∧
        (matchAll leftEnter left leftMode place follow recovery rounds expecting found state).2 =
          (matchAll rightEnter right rightMode place follow recovery rounds expecting found
            other).2 := by
  have hlostAll := h.lost.matchAll hfinal hreuse hlost hparts follow recovery
  induction rounds generalizing expecting found state other with
  | zero => exact .inr ⟨hstate, rfl⟩
  | succ rounds ih =>
      rcases h.look hstate with hl | ⟨hr, hview⟩
      · have hround := hlostAll (rounds + 1) expecting found _ hl
        simp only [Parse.matchAll, State.look_look] at hround ⊢
        exact .inl hround
      · unfold Parse.matchAll
        dsimp only
        simp only [hview.kind, hview.admits]
        split
        · exact .inr ⟨hr, rfl⟩
        · split
          · exact ih _ _ (h.bump hr hview)
          · split
            · rcases h.once hfinal hreuse hlost henter hspeculate hparts recovery hr with hl | hnext
              · left
                split
                · exact hl
                · exact hlostAll _ _ _ _ hl
              · rw [h.position hr, h.position hnext]
                split
                · exact .inr ⟨hnext, rfl⟩
                · exact ih _ _ hnext
            · split
              · exact .inr ⟨hr, rfl⟩
              · rcases h.skip recovery .unexpected hr hview with hl | hr
                · exact .inl (hlostAll _ _ _ _ hl)
                · exact ih _ _ hr

variable (hrounds : SharedRounds left right leftMode rightMode leftEnter rightEnter Related)

include hrounds

theorem repeated {place : Place} (hparts : ∀ part ∈ place.parts, part ∈ left.grammar.parts)
    (follow : Lookahead) {state other : State} (hstate : Related state other) :
    Lost (repeated leftEnter left leftMode place follow state) ∨
      Related (repeated leftEnter left leftMode place follow state)
        (repeated rightEnter right rightMode place follow other) := by
  obtain ⟨rounds, hleft, hright⟩ := hrounds hparts follow (recoveryOf place follow) hstate
  have hmatch := h.matchAll hfinal hreuse hlost henter hspeculate hparts follow
    (recoveryOf place follow) rounds true false hstate
  unfold Parse.repeated
  dsimp only
  rw [hleft, hright]
  rcases hmatch with hl | ⟨hr, hfound⟩
  · left
    split
    · exact h.lost.missing _ _ _ hl
    · exact hl
  · rw [hfound]
    split
    · exact h.missing _ _ hr
    · exact .inr hr

theorem slot {place : Place} (hparts : ∀ part ∈ place.parts, part ∈ left.grammar.parts)
    (recovery : Lookahead) {state other : State} (hstate : Related state other) :
    Lost (slot leftEnter left leftMode place recovery state) ∨
      Related (slot leftEnter left leftMode place recovery state)
        (slot rightEnter right rightMode place recovery other) := by
  unfold Parse.slot
  dsimp only
  split
  · exact h.required hfinal hreuse hlost henter hspeculate hparts _ hstate
  · exact h.optional hfinal hreuse hlost henter hspeculate hparts _ hstate
  · exact h.repeated hfinal hreuse hlost henter hspeculate hrounds hparts _ hstate
  · exact h.repeated hfinal hreuse hlost henter hspeculate hrounds hparts _ hstate

theorem slots {places : List Place}
    (hparts : ∀ place ∈ places, ∀ part ∈ place.parts, part ∈ left.grammar.parts)
    (recovery : Lookahead) {state other : State} (hstate : Related state other) :
    Lost (places.foldl (fun state place =>
        Parse.slot leftEnter left leftMode place recovery state) state) ∨
      Related
        (places.foldl (fun state place =>
          Parse.slot leftEnter left leftMode place recovery state) state)
        (places.foldl (fun state place =>
          Parse.slot rightEnter right rightMode place recovery state) other) := by
  induction places generalizing state other with
  | nil => exact .inr hstate
  | cons place rest ih =>
      obtain ⟨hplace, hrest⟩ := List.forall_mem_cons.mp hparts
      exact lost_or_related
        (h.slot hfinal hreuse hlost henter hspeculate hrounds hplace recovery hstate)
        (h.lost.slots hfinal hreuse hlost hrest recovery _) (ih hrest)

theorem body {kind : NodeKind}
    (hkind : right.grammar.production? kind = left.grammar.production? kind)
    (recovery : Lookahead) {state other : State} (hstate : Related state other) :
    Lost (body leftEnter left leftMode kind recovery state) ∨
      Related (body leftEnter left leftMode kind recovery state)
        (body rightEnter right rightMode kind recovery other) := by
  unfold Parse.body
  rw [hkind]
  split
  · next hproduction =>
      exact h.slots hfinal hreuse hlost henter hspeculate hrounds
        (fun _ hplace _ hpart => mem_parts hproduction hplace hpart) recovery hstate
  · exact .inr hstate

omit henter hlost hspeculate hreuse hrounds in
theorem cut {state other : State} (hstate : Related state other) :
    Lost (cut left leftMode state) ∨
      Related (cut left leftMode state) (cut right rightMode other) := by
  rcases h.look hstate with hl | ⟨hr, hview⟩
  · have hcut := h.lost.cut hfinal _ hl
    simp only [Parse.cut, State.look_look] at hcut ⊢
    exact .inl hcut
  · have hend : (state.look left).atEnd left = (other.look right).atEnd right := by
      rw [State.atEnd, State.atEnd, hview.kind]
    unfold Parse.cut
    dsimp only
    rw [hend]
    split
    · exact .inr hr
    · exact h.skip _ _ hr hview

end Lockstep

/-! ## Sessions over one stream -/

section

variable {left right : Session} (hstream : left.stream = right.stream)

include hstream

theorem State.look_congr (state : State) : state.look left = state.look right := by
  rw [State.look, State.look, hstream]

theorem State.current_congr (state : State) : state.current left = state.current right := by
  rw [State.current, State.current, hstream]

theorem runOutside_congr (stop : Lookahead) (limit position : Nat) :
    State.runOutside left stop limit position = State.runOutside right stop limit position := by
  induction limit generalizing position with
  | zero => rfl
  | succ limit ih => simp only [State.runOutside, ih, hstream]

theorem State.skip_congr (mode : Mode) (stop : Lookahead) (complaint : Complaint)
    (state : State) :
    state.skip left mode stop complaint = state.skip right mode stop complaint := by
  cases mode with
  | trial => rfl
  | actual => simp only [State.skip, runOutside_congr hstream]

theorem run_congr {start : NodeKind}
    (hbody : body (node left depthLimit) left .actual start (.ofKind .eof) (.initial right) =
      body (node right depthLimit) right .actual start (.ofKind .eof) (.initial right)) :
    run left start = run right start := by
  have hinitial : State.initial left = State.initial right := by
    rw [State.initial, State.initial, hstream]
  unfold run
  dsimp only
  rw [hinitial, hbody, State.look_congr hstream, State.skip_congr hstream, State.atEnd,
    State.current_congr hstream, ← State.atEnd]

theorem lockstep_eq (mode : Mode) : Lockstep left right mode mode (fun _ => False)
    (fun state other => other = state ∧ state.horizon ≤ right.stream.size) where
  lost := respected_false
  lost_built _ := id
  position heq := heq.1 ▸ rfl
  look := by
    intro state other ⟨heq, hbound⟩
    subst heq
    rw [State.look_congr hstream]
    refine .inr ⟨⟨rfl, ?_⟩, .of_current Iff.rfl (State.current_congr hstream _)⟩
    rwa [State.look_eq]
  bump := by
    intro state other ⟨heq, hbound⟩ _
    subst heq
    exact ⟨rfl, Nat.le_trans ((respected_horizon right mode).bump_all other) hbound⟩
  skip := by
    intro state other stop complaint ⟨heq, hbound⟩ _
    subst heq
    rw [State.skip_congr hstream]
    refine .inr ⟨rfl, ?_⟩
    cases mode with
    | actual => exact hbound
    | trial => exact Nat.le_trans (Nat.min_le_left _ _) hbound
  missing := by
    intro state other expected what ⟨heq, hbound⟩
    subst heq
    exact .inr ⟨rfl, Nat.le_trans ((respected_horizon right mode).missing other _ _) hbound⟩
  inside := by
    intro state other ⟨heq, hbound⟩
    subst heq
    exact ⟨rfl, hbound⟩
  outside := by
    intro state other inner innerOther kind ⟨heq, _⟩ ⟨hinner, hbound⟩
    subst heq
    subst hinner
    exact ⟨rfl, hbound⟩

end

end Parse

end LosslessTree
