import LosslessTree.Proofs.Descent.Assembly
import LosslessTree.Proofs.Descent.Rounds

/-!
A whole parse over tokens comes to the same as one over words. At every level a node is parsed alike
if the nodes below it are.
-/

namespace LosslessTree

namespace Descent

open Grammar

variable {session : Session} {base : Base} (hfinal : session.tape.final.kind = .eof)

include hfinal

theorem Mirrors.skipAhead {state : State} {other : Parse.State}
    (hmirrors : Mirrors session base state other) (stop : Lookahead) {message : Option String}
    {complaint : Complaint} (hmessage : ∀ token : Token, (message <|> token.flaw).getD
      ("unexpected " ++ token.kind.describe) = complaint.message token) :
    Mirrors session base
      (if state.atEnd session then state else state.skip session stop message)
      (if other.atEnd session.words then other
        else other.skip session.words (modeOf base.trials) stop complaint) := by
  rw [hmirrors.atEnd]
  split
  · exact hmirrors
  · next hend =>
      have hcurrent : (other.current session.words).kind ≠ .eof := by
        simpa [Parse.State.atEnd] using hend
      exact hmirrors.skip stop hmessage
        (Parse.State.ahead_of_current (Session.final_words hfinal) hcurrent)

theorem Mirrors.cut {state : State} {other : Parse.State}
    (hmirrors : Mirrors session base state other) :
    Mirrors session base (cut session state)
      (Parse.cut session.words (modeOf base.trials) other) :=
  hmirrors.look.skipAhead hfinal (.ofKinds .full) fun _ => rfl

variable (hwindow : 0 < session.window)

include hwindow

section

variable {levels : Nat} {enter : Enter}
  (henter : Follows session enter (Parse.node session.words levels))

include henter

theorem Mirrors.slot {place : Place} (hparts : ∀ part ∈ place.parts, part ∈ session.grammar.parts)
    (recovery : Lookahead) {state : State} {other : Parse.State}
    (hmirrors : Mirrors session base state other) :
    Mirrors session base (slot enter session place recovery state)
      (Parse.slot (Parse.node session.words levels) session.words (modeOf base.trials) place recovery
        other) := by
  have hrepeated := hmirrors.repeated henter hfinal hwindow hparts (place.follow.union recovery)
  unfold Descent.slot Parse.slot
  cases place.slot.multiplicity with
  | exactlyOne => exact hmirrors.required henter hfinal place _
  | zeroOrOne => exact hmirrors.optional henter hfinal place _
  | zeroOrMore => exact hrepeated
  | oneOrMore => exact hrepeated

theorem Mirrors.slots {places : List Place}
    (hparts : ∀ place ∈ places, ∀ part ∈ place.parts, part ∈ session.grammar.parts)
    (recovery : Lookahead) {state : State} {other : Parse.State}
    (hmirrors : Mirrors session base state other) :
    Mirrors session base
      (places.foldl (fun state place => Descent.slot enter session place recovery state) state)
      (places.foldl (fun state place => Parse.slot (Parse.node session.words levels) session.words
        (modeOf base.trials) place recovery state) other) := by
  induction places generalizing state other with
  | nil => exact hmirrors
  | cons place rest ih =>
      obtain ⟨hplace, hrest⟩ := List.forall_mem_cons.mp hparts
      exact ih hrest (hmirrors.slot hfinal hwindow henter hplace recovery)

theorem Mirrors.body (kind : NodeKind) (recovery : Lookahead) {state : State} {other : Parse.State}
    (hmirrors : Mirrors session base state other) :
    Mirrors session base (body enter session kind recovery state)
      (Parse.body (Parse.node session.words levels) session.words (modeOf base.trials) kind recovery
        other) := by
  rw [Descent.body, Parse.body, show session.words.grammar = session.grammar from rfl]
  cases hproduction : session.grammar.production? kind with
  | none => exact hmirrors
  | some production =>
      exact hmirrors.slots hfinal hwindow henter
        (fun _ hplace _ hpart => mem_parts hproduction hplace hpart) recovery

end

/-- At every level, nodes are parsed alike on tokens and on words. -/
theorem follows_node (levels : Nat) :
    Follows session (node session levels) (Parse.node session.words levels) := by
  induction levels with
  | zero =>
      intro kind recovery base state other hmirrors
      refine hmirrors.nest kind _ _ fun hinner htrials => ?_
      rw [← htrials]
      exact hinner.cut hfinal
  | succ levels ih =>
      intro kind recovery base state other hmirrors
      refine hmirrors.nest kind _ _ fun hinner htrials => ?_
      rw [← htrials]
      exact hinner.body hfinal hwindow ih kind recovery

/-! ## A whole parse -/

/-- What is written down before the first slot. -/
def Base.initial (session : Session) (start : NodeKind) : Base where
  trials := 0
  limit := session.tape.words.size
  events := .start start (session.tape.offsetAt 0) :: Event.taking 0 (session.tape.words.indexOf 0)
  diagnostics := []
  built := []
  reports := []

omit hfinal hwindow in
theorem mirrors_entrance (session : Session) (start : NodeKind) :
    Mirrors session (.initial session start) (.entrance session start)
      (.initial session.words) := by
  have hsolid : session.tape.Solid (session.tape.words.indexOf 0) := Tape.solid_indexOf 0
  rw [State.entrance, State.eatTrivia_eq Tape.blank_leading (Nat.zero_le _) hsolid.le_size
    hsolid.significant]
  exact {
    index := rfl
    horizon := Tape.indexOf_size.symm
    position_le := Nat.zero_le _
    horizon_le := Nat.le_refl _
    limit_le := Nat.le_refl _
    touched := rfl
    trials := rfl
    written := ⟨[], rfl, by
      rw [State.toList_takeTo]
      simp [Base.initial, State.emit, State.initial, State.offset, Shape.eventsOf]⟩
    reported := ⟨[], [], rfl, rfl, .nil⟩
    last := fun _ _ => ⟨nofun, nofun⟩
    behind := nofun }

theorem mirrors_run (start : NodeKind) :
    ∃ state, run session start = state.emit .finish ∧
      Mirrors session (.initial session start) state (Parse.run session.words start) := by
  have hbody := (mirrors_entrance session start).body hfinal hwindow
    (follows_node hfinal hwindow depthLimit) start (.ofKind .eof)
  exact ⟨_, rfl, hbody.look.skipAhead hfinal (.ofKind .eof) fun _ => rfl⟩

/-- A whole parse writes down what the parse over words builds. -/
theorem events_run (start : NodeKind) : (run session start).events.toList =
    Shape.rootEvents session.tape start (Parse.run session.words start).built.reverse := by
  obtain ⟨state, hrun, hmirrors⟩ := mirrors_run hfinal hwindow start
  obtain ⟨shapes, hbuilt, hevents⟩ := hmirrors.written
  rw [hrun, hbuilt, State.emit, Array.toList_push, hevents, Base.initial, List.append_nil,
    Shape.rootEvents]

/-- A whole parse reports what the parse over words reports. -/
theorem diagnostics_run (start : NodeKind) : (run session start).diagnostics.toList =
    (Parse.run session.words start).reports.reverse.map (Report.diagnostic session.tape.words) := by
  obtain ⟨state, hrun, hmirrors⟩ := mirrors_run hfinal hwindow start
  obtain ⟨reports, diagnostics, hreports, hdiagnostics, htold⟩ := hmirrors.reported
  rw [hrun, hreports, Base.initial, List.append_nil, State.emit, hdiagnostics, Base.initial,
    List.nil_append]
  generalize reports.reverse = told at htold
  clear hdiagnostics
  induction htold with
  | nil => rfl
  | cons hfirst _ ih => rw [List.map_cons, ← ih, hfirst.actual rfl]

/-! ## Trees and problems -/

omit hfinal hwindow in
theorem problem_diagnostic (stream : Stream) (report : Report) :
    (report.diagnostic stream).problem = Problem.ofReport stream report := by
  unfold Diagnostic.problem Problem.ofReport Report.span Report.diagnostic
  cases report.extent with
  | zero => simp [Span.between?, Span.empty]
  | succ extent =>
      dsimp only
      cases Span.between? (stream.offsetAt report.position)
        (stream.tokenAt (report.position + extent)).span.stop <;> rfl

omit hfinal hwindow in
theorem mapM_problem (stream : Stream) (reports : List Report) :
    (reports.map (Report.diagnostic stream)).mapM Diagnostic.problem =
      Parse.problemsOf stream reports := by
  induction reports with
  | nil => rfl
  | cons report rest ih =>
      rw [List.map_cons, List.mapM_cons, ih, problem_diagnostic, Parse.problemsOf]
      cases Problem.ofReport stream report with
      | error fault => rfl
      | ok problem => cases Parse.problemsOf stream rest <;> rfl

/-- Whether winners are parsed again or not, a parse over tokens is a parse over words. -/
theorem parse_words (hsignificant : session.tape.words.Significant) (start : NodeKind) :
    session.parse start = session.words.parse start := by
  have hend := Session.final_words hfinal
  have hrun := Parse.run_afresh hend hwindow start
  obtain ⟨shapes, reports, htraced⟩ := Parse.exists_traced (session.words.stream_afresh.symm ▸ hend)
    hsignificant rfl start
  have hbuilt := htraced.built_eq
  have hreports := htraced.reports_eq
  have hcovers : Parse.Covers session.grammar session.tape.words.size shapes reports 0
    session.tape.words.size := htraced.covers
  rw [hrun] at hbuilt hreports
  rw [Session.parse, conclude, Parse.Session.parse, Parse.conclude, diagnostics_run hfinal hwindow,
    events_run hfinal hwindow, mapM_problem, hbuilt, hreports, List.reverse_reverse,
    List.reverse_reverse, toTree_rootEvents hcovers]
  rfl

omit hfinal hwindow

def Session.afresh (session : Session) : Session := { session with reuse := false }

/-- Parsing the winner of some trials again makes no difference to the tree and the problems. -/
theorem parse_afresh (grammar : Grammar) (settings : Settings) (start : NodeKind)
    (tokens : List Token) :
    (Session.of grammar settings tokens).afresh.parse start =
      (Session.of grammar settings tokens).parse start := by
  let session := Session.of grammar settings tokens
  have hfinal : session.tape.final.kind = .eof := Stream.final_ofTokens tokens
  have hwindow : 0 < session.window := Parse.Session.window_pos grammar settings tokens
  have hsignificant : session.tape.words.Significant := Stream.significant_ofTokens tokens
  have hend : session.afresh.tape.final.kind = .eof := hfinal
  calc session.afresh.parse start
    _ = session.afresh.words.parse start := parse_words hend hwindow hsignificant start
    _ = session.words.parse start :=
      congrArg (Parse.conclude session.tape.words start)
        (Parse.run_afresh (Session.final_words hfinal) hwindow start)
    _ = session.parse start := (parse_words hfinal hwindow hsignificant start).symm

end Descent

/-- Parsing tokens is parsing words. -/
theorem parseTokens_words (grammar : Grammar) (settings : Settings) (start : NodeKind)
    (tokens : List Token) :
    parseTokens grammar settings start tokens =
      match grammar.production start with
      | .error error => .error error
      | .ok _ =>
        match (Parse.Session.of grammar settings tokens).parse start with
        | .error fault => .error (.tree fault)
        | .ok parsed => .ok parsed := by
  let session := Descent.Session.of grammar settings tokens
  have hfinal : session.tape.final.kind = .eof := Stream.final_ofTokens tokens
  have hsignificant : session.tape.words.Significant := Stream.significant_ofTokens tokens
  have hparse := Descent.parse_words hfinal (Parse.Session.window_pos grammar settings tokens)
    hsignificant start
  rw [parseTokens, hparse]
  rfl

end LosslessTree
