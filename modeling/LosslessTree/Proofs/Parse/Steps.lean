import LosslessTree.Proofs.Words.Descent
import LosslessTree.Proofs.Grammar.Compile

/-!
What every step of a parse keeps, a whole parse keeps. A relation between the states before and
after is kept within a node when it holds of the smallest steps and goes through chains of them, and
it is respected when it goes through nesting as well. Sessions are without reuse here: a choice
among trials then only chooses the part to parse and leaves a mark of what was looked at.
-/

namespace LosslessTree

namespace Parse

open Grammar

/-- A relation between the states before and after some steps, kept by all steps within a node. -/
structure Kept (session : Session) (mode : Mode) (R : State → State → Prop) : Prop where
  refl (state : State) : R state state
  trans {first second third : State} : R first second → R second third → R first third
  touch (state : State) (touched : Bool) :
    R state { state with touched := state.touched || touched }
  bump (state : State) (hahead : state.position < state.horizon) : R state state.bump
  skip (state : State) (stop : Lookahead) (complaint : Complaint)
    (hahead : state.position < state.horizon) : R state (state.skip session mode stop complaint)
  missing (state : State) (expected : Lookahead) (what : String) :
    R state (state.missing mode expected what)
  empty (state : State) (kind : NodeKind) (hkind : session.grammar.Mentions kind) :
    R state (state.push (.node kind state.position []))

/-- A relation that nodes keep as well, if it holds of what is built inside them. -/
structure Respected (session : Session) (mode : Mode) (R : State → State → Prop) : Prop
    extends Kept session mode R where
  nest (state inner : State) (kind : NodeKind) (hkind : session.grammar.Mentions kind) :
    R { state with built := [] } inner →
    R state { inner with built := .node kind state.position inner.built.reverse :: state.built }
  empty state kind hkind := nest state { state with built := [] } kind hkind (refl _)

theorem State.look_eq (session : Session) (state : State) :
    state.look session = { state with
      touched := state.touched ||
        decide (state.horizon ≤ state.position ∧ state.horizon < session.stream.size) } := by
  unfold State.look
  split
  · next htouched => simp [htouched]
  · next htouched => simp [htouched]

theorem State.current_look (session : Session) (state : State) :
    (state.look session).current session = state.current session := by
  rw [State.look_eq]
  rfl

theorem State.look_look (session : Session) (state : State) :
    (state.look session).look session = state.look session := by
  simp only [State.look_eq]
  rw [Bool.or_assoc, Bool.or_self]

theorem State.bump_of_ahead {state : State} (hahead : state.position < state.horizon) :
    state.bump = { state with
      position := state.position + 1, built := .token state.position :: state.built } :=
  if_pos hahead

theorem State.bump_of_behind {state : State} (hbehind : ¬state.position < state.horizon) :
    state.bump = state :=
  if_neg hbehind

theorem State.missing_of_reported {state : State} (hlast : state.lastReport = some state.position)
    (mode : Mode) (expected : Lookahead) (what : String) :
    state.missing mode expected what = state :=
  if_pos hlast

theorem State.missing_of_unreported {state : State}
    (hlast : state.lastReport ≠ some state.position) (mode : Mode) (expected : Lookahead)
    (what : String) :
    state.missing mode expected what = { state with
      horizon := (state.lowerHorizon mode).horizon
      built := .error expected state.position 0 :: state.built
      reports := ⟨state.position, 0, .missing what, expected⟩ :: state.reports
      lastReport := some state.position } := by
  rw [State.missing, if_neg hlast]
  cases mode <;> rfl

theorem State.lowerHorizon_le (mode : Mode) (state : State) :
    (state.lowerHorizon mode).horizon ≤ state.horizon := by
  cases mode with
  | actual => exact Nat.le_refl _
  | trial => exact Nat.min_le_left _ _

theorem State.ahead_of_current {session : Session} {state : State}
    (hfinal : session.stream.final.kind = .eof)
    (hcurrent : (state.current session).kind ≠ .eof) : state.position < state.horizon := by
  refine Nat.lt_of_not_le fun hbehind => hcurrent ?_
  rw [State.current, if_neg (Nat.not_lt.mpr hbehind), hfinal]

/-- Trials of equal rank are chosen alike. -/
theorem best_parallel {state other : State} {outcome otherOutcome : Part → State} (first : Part)
    (others : List Part) (hrank : ∀ part ∈ first :: others,
      rank state (outcome part) = rank other (otherOutcome part)) :
    ∃ part ∈ first :: others,
      best state (first, outcome first) (others.map fun part => (part, outcome part)) =
          (part, outcome part) ∧
        best other (first, otherOutcome first)
            (others.map fun part => (part, otherOutcome part)) =
          (part, otherOutcome part) := by
  induction others generalizing first with
  | nil => exact ⟨first, List.mem_singleton.mpr rfl, rfl, rfl⟩
  | cons second rest ih =>
      have hfirst := hrank first (by simp)
      have hsecond := hrank second (by simp)
      simp only [best, List.map_cons, List.foldl_cons, hfirst, hsecond]
      by_cases hlt : (rank other (otherOutcome first)).lt (rank other (otherOutcome second)) = true
      · obtain ⟨part, hpart, hleft, hright⟩ := ih second fun part hpart =>
          hrank part (List.mem_cons_of_mem _ hpart)
        rw [if_pos hlt, if_pos hlt]
        exact ⟨part, List.mem_cons_of_mem _ hpart, hleft, hright⟩
      · obtain ⟨part, hpart, hleft, hright⟩ := ih first fun part hpart =>
          hrank part (by
            rcases List.mem_cons.mp hpart with rfl | hrest
            · simp
            · simp [hrest])
        rw [if_neg hlt, if_neg hlt]
        refine ⟨part, ?_, hleft, hright⟩
        rcases List.mem_cons.mp hpart with rfl | hrest
        · simp
        · simp [hrest]

/-- Without reuse the winner of the trials is parsed from where they started. -/
theorem speculate_eq_element {session : Session} (hreuse : session.reuse = false) (enter : Enter)
    (mode : Mode) (first : Part) (others : List Part) (recovery : Lookahead) (state : State) :
    speculate enter session mode (first :: others) recovery state =
      element enter mode
        (best state (first, attempt enter session recovery state first)
          (others.map fun part => (part, attempt enter session recovery state part))).1
        recovery
        { state with touched := state.touched ||
            (first :: others).any fun part =>
              (attempt enter session recovery state part).touched } := by
  simp only [speculate, isReusable, hreuse, Bool.false_and, Bool.false_eq_true, if_false,
    List.map_cons, List.any_cons, List.any_map]
  rfl

theorem speculate_afresh {session : Session} (hreuse : session.reuse = false) (enter : Enter)
    (mode : Mode) {candidates : List Part} (hcandidates : candidates ≠ []) (recovery : Lookahead)
    (state : State) :
    ∃ part ∈ candidates, ∃ touched, speculate enter session mode candidates recovery state =
      element enter mode part recovery { state with touched := state.touched || touched } := by
  cases candidates with
  | nil => exact absurd rfl hcandidates
  | cons first others =>
      obtain ⟨part, hpart, hbest, -⟩ := best_parallel first others fun part _ =>
        Eq.refl (rank state (attempt enter session recovery state part))
      have hwinner := speculate_eq_element hreuse enter mode first others recovery state
      rw [hbest] at hwinner
      exact ⟨part, hpart, _, hwinner⟩

/-- Without reuse a choice parses one of its parts that fit the token in front. Where there is none,
it parses the first part that may be empty. -/
theorem choose_cases {session : Session} (hreuse : session.reuse = false) (enter : Enter)
    (mode : Mode) (parts : List Part) (recovery : Lookahead) (state : State) :
    (∃ part ∈ parts, part.first.admits (state.current session) = true ∧ ∃ touched,
        choose enter session mode parts recovery state =
          (element enter mode part recovery
            { state with touched := state.touched || touched }, true)) ∨
      (∀ part ∈ parts, part.first.admits (state.current session) = false) ∧
        choose enter session mode parts recovery state =
          match parts.find? (·.nullable) with
          | some part => (element enter mode part recovery (state.look session), true)
          | none => (state.look session, false) := by
  have hlook := State.look_eq session state
  have hfilter : ∀ part ∈ parts.filter
      (·.first.admits ((state.look session).current session)),
      part ∈ parts ∧ part.first.admits (state.current session) = true := by
    intro part hpart
    rw [State.current_look] at hpart
    exact List.mem_filter.mp hpart
  unfold choose
  dsimp only
  cases hcandidates : parts.filter (·.first.admits ((state.look session).current session)) with
  | nil =>
      refine .inr ⟨fun part hpart => ?_, rfl⟩
      have hnone := List.filter_eq_nil_iff.mp hcandidates part hpart
      rwa [State.current_look, Bool.not_eq_true] at hnone
  | cons first others =>
      rw [hcandidates] at hfilter
      cases others with
      | nil =>
          obtain ⟨hpart, hadmits⟩ := hfilter first List.mem_cons_self
          exact .inl ⟨first, hpart, hadmits, _, by rw [hlook]⟩
      | cons second rest =>
          obtain ⟨part, hpart, touched, heq⟩ := speculate_afresh hreuse enter mode
            (List.cons_ne_nil first (second :: rest)) recovery (state.look session)
          obtain ⟨hmem, hadmits⟩ := hfilter part hpart
          refine .inl ⟨part, hmem, hadmits,
            decide (state.horizon ≤ state.position ∧ state.horizon < session.stream.size)
              || touched, ?_⟩
          rw [hlook] at heq ⊢
          rw [← Bool.or_assoc]
          exact congrArg (·, true) heq

/-- A choice parses a part that may stand in front, or only looks. -/
theorem choose_afresh {session : Session} (hreuse : session.reuse = false) (enter : Enter)
    (mode : Mode) (parts : List Part) (recovery : Lookahead) (state : State) :
    choose enter session mode parts recovery state = (state.look session, false) ∨
      ∃ part ∈ parts,
        (part.first.admits (state.current session) = true ∨ part.nullable = true) ∧
        ∃ touched, choose enter session mode parts recovery state =
          (element enter mode part recovery
            { state with touched := state.touched || touched }, true) := by
  rcases choose_cases hreuse enter mode parts recovery state with
    ⟨part, hpart, hadmits, hchoose⟩ | ⟨-, hchoose⟩
  · exact .inr ⟨part, hpart, .inl hadmits, hchoose⟩
  · cases hfind : parts.find? (·.nullable) with
    | none =>
        rw [hfind] at hchoose
        exact .inl hchoose
    | some part =>
        rw [hfind] at hchoose
        have hnullable : part.nullable = true := by simpa using List.find?_some hfind
        refine .inr ⟨part, List.mem_of_find?_eq_some hfind, .inr hnullable,
          decide (state.horizon ≤ state.position ∧ state.horizon < session.stream.size), ?_⟩
        rw [hchoose, State.look_eq]

namespace Kept

variable {session : Session} {mode : Mode} {R : State → State → Prop} {enter : Enter}

theorem look (hR : Kept session mode R) (state : State) : R state (state.look session) := by
  rw [State.look_eq]
  exact hR.touch state _

theorem bump_all (hR : Kept session mode R) (state : State) : R state state.bump := by
  by_cases hahead : state.position < state.horizon
  · exact hR.bump state hahead
  · simpa [State.bump, hahead] using hR.refl state

theorem skip_of_current (hR : Kept session mode R)
    (hfinal : session.stream.final.kind = .eof) {state : State}
    (hcurrent : (state.current session).kind ≠ .eof) (stop : Lookahead) (complaint : Complaint) :
    R state (state.skip session mode stop complaint) :=
  hR.skip state stop complaint (State.ahead_of_current hfinal hcurrent)

variable (hR : Kept session mode R) (hfinal : session.stream.final.kind = .eof)
  (hreuse : session.reuse = false)
  (henter : ∀ {kind}, session.grammar.Mentions kind → ∀ recovery state,
    R state (enter mode kind recovery state))

include hR henter

theorem element {part : Part} (hpart : part ∈ session.grammar.parts) (recovery : Lookahead)
    (state : State) : R state (element enter mode part recovery state) := by
  unfold Parse.element
  split
  · exact hR.bump_all state
  · exact hR.bump_all state
  · next hsymbol => exact henter ⟨part, hpart, hsymbol⟩ recovery state

include hreuse

theorem speculate {candidates : List Part} (hcandidates : candidates ≠ [])
    (hparts : ∀ part ∈ candidates, part ∈ session.grammar.parts) (recovery : Lookahead)
    (state : State) : R state (speculate enter session mode candidates recovery state) := by
  obtain ⟨part, hpart, touched, heq⟩ :=
    speculate_afresh hreuse enter mode hcandidates recovery state
  rw [heq]
  exact hR.trans (hR.touch state _) (hR.element henter (hparts part hpart) recovery _)

theorem choose {parts : List Part} (hparts : ∀ part ∈ parts, part ∈ session.grammar.parts)
    (recovery : Lookahead) (state : State) :
    R state (choose enter session mode parts recovery state).1 := by
  rcases choose_afresh hreuse enter mode parts recovery state with
    heq | ⟨part, hpart, -, touched, heq⟩
  · rw [heq]
    exact hR.look state
  · rw [heq]
    exact hR.trans (hR.touch state touched) (hR.element henter (hparts part hpart) recovery _)

theorem chooseOrReport {place : Place}
    (hparts : ∀ part ∈ place.parts, part ∈ session.grammar.parts) (recovery : Lookahead)
    (state : State) : R state (chooseOrReport enter session mode place recovery state) := by
  have hchoose := hR.choose hreuse henter hparts recovery state
  unfold Parse.chooseOrReport
  split
  · next heq => rwa [heq] at hchoose
  · next heq =>
      rw [heq] at hchoose
      exact hR.trans hchoose (hR.missing _ _ _)

omit hreuse henter in
theorem placeholder {part : Part} (hpart : part ∈ session.grammar.parts) (state : State) :
    R state (placeholder mode part state) := by
  unfold Parse.placeholder
  dsimp only
  apply hR.trans (hR.missing state part.first part.symbol.describe)
  split
  · next hsymbol => exact hR.empty _ _ ⟨part, hpart, hsymbol⟩
  · exact hR.refl _

omit hreuse in
include hfinal in
theorem expect {part : Part} (hpart : part ∈ session.grammar.parts) (follow : Lookahead)
    (state : State) : R state (expect enter session mode part follow state) := by
  unfold Parse.expect
  dsimp only
  apply hR.trans (hR.look state)
  split
  · exact hR.element henter hpart follow _
  · split
    · exact hR.placeholder hpart _
    · next hstop =>
        have hcurrent : ((state.look session).current session).kind ≠ .eof := by
          intro heof
          simp [heof] at hstop
        refine hR.trans
          (hR.skip_of_current hfinal hcurrent (part.first.union follow) .unexpected) ?_
        apply hR.trans (hR.look _)
        split
        · exact hR.element henter hpart follow _
        · exact hR.placeholder hpart _

omit hreuse in
include hfinal in
theorem expectAll {parts : List Part} (hparts : ∀ part ∈ parts, part ∈ session.grammar.parts)
    (follow : Lookahead) (state : State) :
    R state (expectAll enter session mode parts follow state) := by
  induction parts generalizing state with
  | nil => exact hR.refl state
  | cons part rest ih =>
      obtain ⟨hpart, hrest⟩ := List.forall_mem_cons.mp hparts
      exact hR.trans (hR.expect hfinal henter hpart _ state) (ih hrest _)

include hfinal

theorem once {place : Place} (hparts : ∀ part ∈ place.parts, part ∈ session.grammar.parts)
    (follow : Lookahead) (state : State) :
    R state (once enter session mode place follow state) := by
  unfold Parse.once
  split
  · exact hR.expectAll hfinal henter hparts follow state
  · exact hR.chooseOrReport hreuse henter hparts follow state

theorem required {place : Place} (hparts : ∀ part ∈ place.parts, part ∈ session.grammar.parts)
    (follow : Lookahead) (state : State) :
    R state (required enter session mode place follow state) := by
  unfold Parse.required
  split
  · exact hR.expectAll hfinal henter hparts follow state
  · dsimp only
    apply hR.trans (hR.look state)
    refine hR.trans ?_ (hR.chooseOrReport hreuse henter hparts follow _)
    split
    · exact hR.refl _
    · next hstop =>
        refine hR.skip_of_current hfinal ?_ _ _
        intro heof
        simp [heof] at hstop

theorem optional {place : Place} (hparts : ∀ part ∈ place.parts, part ∈ session.grammar.parts)
    (follow : Lookahead) (state : State) :
    R state (optional enter session mode place follow state) := by
  unfold Parse.optional
  apply hR.trans (hR.look state)
  dsimp only
  split
  · exact hR.once hfinal hreuse henter hparts follow _
  · split
    · exact hR.refl _
    · next hstop =>
        have hcurrent : ((state.look session).current session).kind ≠ .eof := by
          intro heof
          simp [heof] at hstop
        refine hR.trans
          (hR.skip_of_current hfinal hcurrent (place.first.union follow) .unexpected) ?_
        apply hR.trans (hR.look _)
        split
        · exact hR.once hfinal hreuse henter hparts follow _
        · exact hR.refl _

theorem matchAll {place : Place} (hparts : ∀ part ∈ place.parts, part ∈ session.grammar.parts)
    (follow recovery : Lookahead) (rounds : Nat) (expecting found : Bool) (state : State) :
    R state (matchAll enter session mode place follow recovery rounds expecting found state).1 := by
  induction rounds generalizing expecting found state with
  | zero => exact hR.refl state
  | succ rounds ih =>
      unfold Parse.matchAll
      apply hR.trans (hR.look state)
      dsimp only
      split
      · exact hR.refl _
      · next heof =>
          have hcurrent : ((state.look session).current session).kind ≠ .eof := by
            simpa using heof
          split
          · exact hR.trans (hR.bump_all _) (ih _ _ _)
          · split
            · have honce := hR.once hfinal hreuse henter hparts recovery (state.look session)
              split
              · exact honce
              · exact hR.trans honce (ih _ _ _)
            · split
              · exact hR.refl _
              · exact hR.trans (hR.skip_of_current hfinal hcurrent _ _) (ih _ _ _)

theorem repeated {place : Place} (hparts : ∀ part ∈ place.parts, part ∈ session.grammar.parts)
    (follow : Lookahead) (state : State) :
    R state (repeated enter session mode place follow state) := by
  have hmatch := hR.matchAll hfinal hreuse henter hparts follow (recoveryOf place follow)
    (session.stream.size - state.position + 1) true false state
  unfold Parse.repeated
  dsimp only
  split
  · exact hR.trans hmatch (hR.missing _ _ _)
  · exact hmatch

theorem slot {place : Place} (hparts : ∀ part ∈ place.parts, part ∈ session.grammar.parts)
    (recovery : Lookahead) (state : State) :
    R state (slot enter session mode place recovery state) := by
  unfold Parse.slot
  dsimp only
  split
  · exact hR.required hfinal hreuse henter hparts _ state
  · exact hR.optional hfinal hreuse henter hparts _ state
  · exact hR.repeated hfinal hreuse henter hparts _ state
  · exact hR.repeated hfinal hreuse henter hparts _ state

theorem slots {places : List Place}
    (hparts : ∀ place ∈ places, ∀ part ∈ place.parts, part ∈ session.grammar.parts)
    (recovery : Lookahead) (state : State) :
    R state (places.foldl (fun state place =>
      Parse.slot enter session mode place recovery state) state) := by
  induction places generalizing state with
  | nil => exact hR.refl state
  | cons place rest ih =>
      obtain ⟨hplace, hrest⟩ := List.forall_mem_cons.mp hparts
      exact hR.trans (hR.slot hfinal hreuse henter hplace recovery state) (ih hrest _)

theorem body (kind : NodeKind) (recovery : Lookahead) (state : State) :
    R state (body enter session mode kind recovery state) := by
  unfold Parse.body
  split
  · next hproduction =>
      exact hR.slots hfinal hreuse henter
        (fun _ hplace _ hpart => mem_parts hproduction hplace hpart) recovery state
  · exact hR.refl state

omit henter hreuse in
theorem cut (state : State) : R state (cut session mode state) := by
  unfold Parse.cut
  apply hR.trans (hR.look state)
  dsimp only
  split
  · exact hR.refl _
  · next hend => exact hR.skip_of_current hfinal (by simpa [State.atEnd] using hend) _ _

end Kept

namespace Respected

variable {session : Session} {mode : Mode} {R : State → State → Prop}
  (hR : Respected session mode R) (hfinal : session.stream.final.kind = .eof)
  (hreuse : session.reuse = false)

include hR hfinal hreuse

theorem node (levels : Nat) {kind : NodeKind} (hkind : session.grammar.Mentions kind)
    (recovery : Lookahead) (state : State) :
    R state (node session levels mode kind recovery state) := by
  induction levels generalizing kind recovery state with
  | zero => exact hR.nest state _ kind hkind (hR.cut hfinal _)
  | succ levels ih =>
      exact hR.nest state _ kind hkind (hR.body hfinal hreuse ih kind recovery _)

end Respected

/-- What actual parsing keeps holds between the start and the end of a whole parse. -/
theorem Kept.run {session : Session} {R : State → State → Prop}
    (hR : Kept session .actual R) (hfinal : session.stream.final.kind = .eof)
    (hreuse : session.reuse = false)
    (hnode : ∀ {kind}, session.grammar.Mentions kind → ∀ recovery state,
      R state (node session depthLimit .actual kind recovery state))
    (start : NodeKind) : R (.initial session) (run session start) := by
  have hbody := hR.body hfinal hreuse hnode start (.ofKind .eof) (.initial session)
  unfold Parse.run
  dsimp only
  apply hR.trans hbody
  apply hR.trans (hR.look _)
  split
  · exact hR.refl _
  · next hend => exact hR.skip_of_current hfinal (by simpa [State.atEnd] using hend) _ _

theorem Respected.run {session : Session} {R : State → State → Prop}
    (hR : Respected session .actual R) (hfinal : session.stream.final.kind = .eof)
    (hreuse : session.reuse = false) (start : NodeKind) :
    R (.initial session) (run session start) :=
  hR.toKept.run hfinal hreuse (hR.node hfinal hreuse depthLimit) start

theorem respected_horizon (session : Session) (mode : Mode) :
    Respected session mode fun before after => after.horizon ≤ before.horizon where
  refl state := Nat.le_refl _
  trans hfirst hsecond := Nat.le_trans hsecond hfirst
  touch state touched := Nat.le_refl _
  bump state hahead := by
    have hhorizon := congrArg State.horizon (State.bump_of_ahead hahead)
    exact Nat.le_of_eq hhorizon
  skip state stop complaint hahead := by
    cases mode with
    | actual => exact Nat.le_refl _
    | trial => exact Nat.min_le_left _ _
  missing state expected what := by
    by_cases hlast : state.lastReport = some state.position
    · have hhorizon := congrArg State.horizon (State.missing_of_reported hlast mode expected what)
      exact Nat.le_of_eq hhorizon
    · rw [State.missing_of_unreported hlast]
      exact State.lowerHorizon_le mode state
  nest state inner kind _ hinner := hinner

/-- The horizon moves only together with a report. -/
theorem respected_unreported (session : Session) (mode : Mode) :
    Respected session mode fun before after =>
      after.reports = [] → before.reports = [] ∧ after.horizon = before.horizon where
  refl state hreports := ⟨hreports, rfl⟩
  trans hfirst hsecond hreports := by
    obtain ⟨hmiddle, hhorizon⟩ := hsecond hreports
    obtain ⟨hbefore, hmoved⟩ := hfirst hmiddle
    exact ⟨hbefore, hhorizon.trans hmoved⟩
  touch state touched hreports := ⟨hreports, rfl⟩
  bump state hahead hreports := by
    rw [State.bump_of_ahead hahead] at hreports ⊢
    exact ⟨hreports, rfl⟩
  skip state stop complaint hahead hreports := by
    cases mode <;> cases hreports
  missing state expected what hreports := by
    by_cases hlast : state.lastReport = some state.position
    · rw [State.missing_of_reported hlast] at hreports ⊢
      exact ⟨hreports, rfl⟩
    · rw [State.missing_of_unreported hlast] at hreports
      cases hreports
  nest state inner kind _ hinner := hinner

theorem respected_false {session : Session} {mode : Mode} : Respected session mode fun _ _ =>
    False → False where
  refl _ := id
  trans hfirst hsecond := hsecond ∘ hfirst
  touch _ _ := id
  bump _ _ := id
  skip _ _ _ _ := id
  missing _ _ _ := id
  nest _ _ _ _ := id

end Parse

end LosslessTree
