import LosslessTree.Descent.Run
import LosslessTree.Proofs.Descent.Index
import LosslessTree.Proofs.Parse.Coverage
import LosslessTree.Proofs.Words.Basic

/-!
One step over all tokens is one step over words. Between two steps the parser stands on the token
of a word or at its horizon, which is at the token of a word as well or at the end; what it has
written down is what the shapes and reports say that are built meanwhile.
-/

namespace LosslessTree

namespace Event

def taking (start stop : Nat) : List Event := (List.range' start (stop - start)).map token

theorem taking_self (index : Nat) : taking index index = [] := by simp [taking]

theorem taking_append {start middle stop : Nat} (hstart : start ≤ middle) (hstop : middle ≤ stop) :
    taking start middle ++ taking middle stop = taking start stop := by
  rw [taking, taking, taking, ← List.map_append]
  congr 1
  have hmiddle : middle = start + (middle - start) := by omega
  have hsum : stop - start = middle - start + (stop - middle) := by omega
  rw [hsum, ← List.range'_append_1, ← hmiddle]

theorem taking_cons {start stop : Nat} (hlt : start < stop) :
    taking start stop = token start :: taking (start + 1) stop := by
  rw [← taking_append (Nat.le_succ start) hlt]
  simp [taking]

end Event

namespace Shape

open Event

/-- The index behind the last token of a stretch that does not fit. -/
def reach (stream : Stream) (position : Nat) : (extent : Nat) → Nat
  | 0 => stream.indexOf position
  | extent + 1 => stream.indexOf (position + extent) + 1

mutual

def events (stream : Stream) : Shape → List Event
  | token position => taking (stream.indexOf position) (stream.indexOf (position + 1))
  | node kind position children =>
    .start kind (stream.offsetAt position) :: eventsOf stream children ++ [.finish]
  | error expected position extent =>
    .error expected (stream.offsetAt position)
      :: taking (stream.indexOf position) (reach stream position extent)
      ++ .finish :: taking (reach stream position extent) (stream.indexOf (position + extent))

def eventsOf (stream : Stream) : List Shape → List Event
  | [] => []
  | shape :: rest => events stream shape ++ eventsOf stream rest

end

theorem eventsOf_append (stream : Stream) (shapes more : List Shape) :
    eventsOf stream (shapes ++ more) = eventsOf stream shapes ++ eventsOf stream more := by
  induction shapes with
  | nil => rfl
  | cons shape rest ih => rw [List.cons_append, eventsOf, eventsOf, ih, List.append_assoc]

theorem eventsOf_concat (stream : Stream) (shapes : List Shape) (shape : Shape) :
    eventsOf stream (shapes ++ [shape]) = eventsOf stream shapes ++ events stream shape := by
  rw [eventsOf_append, eventsOf, eventsOf, List.append_nil]

end Shape

/-- What is written down of a whole parse: the blanks in front of the first word as well. -/
def Shape.rootEvents (tape : Tape) (kind : NodeKind) (shapes : List Shape) : List Event :=
  .start kind (tape.offsetAt 0) :: Event.taking 0 (tape.words.indexOf 0)
    ++ eventsOf tape.words shapes ++ [.finish]

def Report.diagnostic (stream : Stream) (report : Report) : Diagnostic where
  index := stream.indexOf report.position
  start := stream.offsetAt report.position
  stop := match report.extent with
    | 0 => stream.offsetAt report.position
    | extent + 1 => (stream.tokenAt (report.position + extent)).span.stop
  message := report.complaint.message (stream.tokenAt report.position)
  expected := report.expected

namespace Descent

def Session.words (session : Session) : Parse.Session where
  grammar := session.grammar
  stream := session.tape.words
  window := session.window
  reuse := session.reuse

theorem Session.final_words {session : Session} (hfinal : session.tape.final.kind = .eof) :
    session.words.stream.final.kind = .eof := hfinal

/-- Whether this is a trial, by how many trials are under way. -/
def modeOf : (trials : Nat) → Parse.Mode
  | 0 => .actual
  | _ + 1 => .trial

/-- What had been written down and what could be seen, in how many trials, before some steps. -/
structure Base where
  trials : Nat
  limit : Nat
  events : List Event
  diagnostics : List Diagnostic
  built : List Shape
  reports : List Report

/-- A diagnostic that stands for a report. In a trial only its place counts. -/
structure Told (stream : Stream) (trials limit : Nat) (diagnostic : Diagnostic)
    (report : Report) : Prop where
  position_le : report.position ≤ limit
  index : diagnostic.index = stream.indexOf report.position
  actual : trials = 0 → diagnostic = report.diagnostic stream

/-- What has been written down since then is what has been built since then. -/
def Base.Written (base : Base) (stream : Stream) (events : Array Event) (built : List Shape) :
    Prop :=
  ∃ shapes, built = shapes ++ base.built ∧
    events.toList = base.events ++ Shape.eventsOf stream shapes.reverse

def Base.Reported (base : Base) (stream : Stream) (diagnostics : Array Diagnostic)
    (reports : List Report) : Prop :=
  ∃ more others, reports = more ++ base.reports ∧ diagnostics.toList = base.diagnostics ++ others ∧
    List.Forall₂ (Told stream base.trials base.limit) others more.reverse

/-- The newest diagnostic and the newest report have one place, if it is the place of a word. -/
def Remembers (stream : Stream) (diagnostics : Array Diagnostic) (lastReport : Option Nat) : Prop :=
  ∀ position ≤ stream.size,
    diagnostics.back?.map (·.index) = some (stream.indexOf position) ↔ lastReport = some position

/-- The newest diagnostic is not about anything beyond a place. -/
def Behind (diagnostics : Array Diagnostic) (index : Nat) : Prop :=
  ∀ diagnostic ∈ diagnostics.back?, diagnostic.index ≤ index

/-- A state over all tokens, and the state over words that it comes to. -/
structure Mirrors (session : Session) (base : Base) (state : State) (other : Parse.State) :
    Prop where
  index : state.index = session.tape.words.indexOf other.position
  horizon : state.horizon = session.tape.words.indexOf other.horizon
  position_le : other.position ≤ other.horizon
  horizon_le : other.horizon ≤ base.limit
  limit_le : base.limit ≤ session.tape.words.size
  touched : state.touched = other.touched
  trials : state.trials = base.trials
  written : base.Written session.tape.words state.events other.built
  reported : base.Reported session.tape.words state.diagnostics other.reports
  last : Remembers session.tape.words state.diagnostics other.lastReport
  behind : Behind state.diagnostics state.index

theorem Base.Written.push {base : Base} {stream : Stream} {events more : Array Event}
    {built : List Shape} (hwritten : base.Written stream events built) {shape : Shape}
    (hmore : more.toList = events.toList ++ shape.events stream) :
    base.Written stream more (shape :: built) := by
  obtain ⟨shapes, rfl, hevents⟩ := hwritten
  refine ⟨shape :: shapes, rfl, ?_⟩
  rw [hmore, hevents, List.reverse_cons, Shape.eventsOf_concat, List.append_assoc]

theorem Base.Reported.push {base : Base} {stream : Stream} {diagnostics : Array Diagnostic}
    {reports : List Report} (hreported : base.Reported stream diagnostics reports)
    {diagnostic : Diagnostic} {report : Report}
    (htold : Told stream base.trials base.limit diagnostic report) :
    base.Reported stream (diagnostics.push diagnostic) (report :: reports) := by
  obtain ⟨more, others, rfl, hlist, hall⟩ := hreported
  refine ⟨report :: more, others ++ [diagnostic], rfl, ?_, ?_⟩
  · rw [Array.toList_push, hlist, List.append_assoc]
  · rw [List.reverse_cons]
    exact List.rel_append hall (.cons htold .nil)

theorem Remembers.push {stream : Stream} {diagnostic : Diagnostic} {position : Nat}
    (hposition : position ≤ stream.size) (hindex : diagnostic.index = stream.indexOf position)
    (diagnostics : Array Diagnostic) :
    Remembers stream (diagnostics.push diagnostic) (some position) := by
  intro other hother
  rw [Array.back?_push, Option.map_some, hindex, Option.some_inj, Option.some_inj,
    Stream.indexOf_inj hposition hother]

theorem Behind.mono {diagnostics : Array Diagnostic} {index other : Nat}
    (hbehind : Behind diagnostics index) (hle : index ≤ other) : Behind diagnostics other :=
  fun diagnostic hdiagnostic => Nat.le_trans (hbehind diagnostic hdiagnostic) hle

theorem Behind.push {diagnostic : Diagnostic} {index : Nat} (hle : diagnostic.index ≤ index)
    (diagnostics : Array Diagnostic) : Behind (diagnostics.push diagnostic) index := by
  intro newest hnewest
  rw [Array.back?_push, Option.mem_some_iff] at hnewest
  exact hnewest ▸ hle

/-! ## Taking tokens -/

namespace State

variable {session : Session} {state : State} {stop : Nat}

theorem takeTo_self (state : State) : state.takeTo state.index = state := by
  simp [takeTo]

theorem toList_takeTo (state : State) (stop : Nat) :
    (state.takeTo stop).events.toList =
      state.events.toList ++ Event.taking state.index stop := by
  simp [takeTo, Event.taking]

theorem take_eq (state : State) : state.take = state.takeTo (state.index + 1) := by
  simp [take, takeTo]

theorem takeTo_takeTo {middle : Nat} (hmiddle : state.index ≤ middle) (hstop : middle ≤ stop) :
    (state.takeTo middle).takeTo stop = state.takeTo stop := by
  have hevents : ((state.takeTo middle).takeTo stop).events = (state.takeTo stop).events := by
    apply Array.toList_inj.mp
    rw [toList_takeTo, toList_takeTo, toList_takeTo, List.append_assoc]
    exact congrArg _ (Event.taking_append hmiddle hstop)
  exact congrArg (fun events => { state with index := stop, events }) hevents

theorem take_takeTo (hlt : state.index < stop) : state.take.takeTo stop = state.takeTo stop := by
  rw [take_eq, takeTo_takeTo (Nat.le_succ _) hlt]

theorem lowerHorizon_eq (state : State) :
    state.lowerHorizon = { state with horizon := state.lowerHorizon.horizon } := by
  unfold lowerHorizon
  split <;> rfl

/-- Up to a significant token or the horizon, blanks and comments are taken. -/
theorem eatTrivia_eq (hblank : session.tape.Blank state.index stop) (hle : state.index ≤ stop)
    (hhorizon : stop ≤ state.horizon)
    (hsolid : stop < state.horizon → (session.tape.tokenAt stop).isTrivia = false) :
    state.eatTrivia session = state.takeTo stop := by
  fun_induction state.eatTrivia session with
  | case1 state htrivia ih =>
      have hlt : state.index < stop := by
        refine Nat.lt_of_le_of_ne hle fun heq => ?_
        rw [heq] at htrivia
        rw [hsolid htrivia.1] at htrivia
        exact Bool.false_ne_true htrivia.2
      rw [ih hblank.tail hlt hhorizon hsolid, take_takeTo hlt]
  | case2 state hend =>
      have heq : stop = state.index := by
        refine Nat.le_antisymm (Nat.le_of_not_lt fun hlt => hend ⟨?_, ?_⟩) hle
        · exact Nat.lt_of_lt_of_le hlt hhorizon
        · exact hblank _ (Nat.le_refl _) hlt
      rw [heq, takeTo_self]

/-- Behind the token of a word, its blanks are taken up to the next word. -/
theorem eatTrivia_word {position horizon : Nat}
    (hindex : state.index = session.tape.words.indexOf position + 1)
    (hhorizon : state.horizon = session.tape.words.indexOf horizon)
    (hposition : position < horizon) (hsize : horizon ≤ session.tape.words.size) :
    state.eatTrivia session = state.takeTo (session.tape.words.indexOf (position + 1)) := by
  have hword : position < session.tape.words.size := Nat.lt_of_lt_of_le hposition hsize
  apply eatTrivia_eq
  · rw [hindex]
    exact Tape.blank_behind hword
  · rw [hindex]
    exact Stream.indexOf_lt_succ hword
  · rw [hhorizon]
    exact Stream.indexOf_le hposition
  · intro hlt
    rw [hhorizon] at hlt
    exact (Tape.solid_indexOf _).significant (Nat.lt_of_lt_of_le hlt (Tape.indexOf_le_size _))

/-- Tokens are skipped word by word, up to the first word in the set or the horizon. -/
theorem skipOver_eq (stop : Lookahead) {position horizon : Nat}
    (hindex : state.index = session.tape.words.indexOf position)
    (hhorizon : state.horizon = session.tape.words.indexOf horizon)
    (hposition : position < horizon) (hsize : horizon ≤ session.tape.words.size) :
    let last := position +
      Parse.State.runOutside session.words stop (horizon - (position + 1)) (position + 1)
    state.skipOver session stop = (state.takeTo (session.tape.words.indexOf last + 1),
      (session.tape.words.tokenAt last).span.stop) := by
  generalize hlimit : horizon - (position + 1) = limit
  have hword : position < session.tape.words.size := Nat.lt_of_lt_of_le hposition hsize
  -- The induction is on the words up to the horizon. A round takes a word with all its blanks, but
  -- the last round leaves those of its word to be eaten afterwards.
  induction limit generalizing position state with
  | zero =>
      obtain rfl : horizon = position + 1 := by omega
      rw [skipOver]
      simp only [hindex, Tape.nextFrom_indexOf hword, Tape.tokenAt_indexOf, take_eq, takeTo,
        hhorizon, Nat.le_refl, true_or, if_true, ite_self, Parse.State.runOutside,
        Nat.add_zero]
  | succ limit ih =>
      have hnext : session.tape.words.indexOf (position + 1) < session.tape.size := by
        rw [← Tape.indexOf_size, Stream.indexOf_lt_iff (Nat.le_refl _)]
        omega
      have hbefore : ¬state.horizon ≤ session.tape.words.indexOf (position + 1) := by
        rw [hhorizon, Nat.not_le, Stream.indexOf_lt_iff hsize]
        omega
      rw [skipOver]
      simp only [hindex, Tape.nextFrom_indexOf hword, Tape.tokenAt_indexOf, hnext, if_true,
        show state.take.horizon = state.horizon from rfl, hbefore, false_or,
        Parse.State.runOutside]
      split
      · next hadmits =>
          have hstop : stop.admits (session.words.stream.tokenAt (position + 1)) = true := hadmits
          simp only [hstop, if_true, Nat.add_zero, take_eq, hindex]
      · next hrefuses =>
          have hstop : ¬stop.admits (session.words.stream.tokenAt (position + 1)) = true := hrefuses
          have hlt : state.index < session.tape.words.indexOf (position + 1) := by
            rw [hindex]
            exact Stream.indexOf_lt_succ hword
          have hreached : (state.take.takeTo (session.tape.words.indexOf (position + 1))).index =
              session.tape.words.indexOf (position + 1) := rfl
          have hstep := ih hreached hhorizon (by omega) (by omega) (by omega)
          rw [if_neg hstop, ← Nat.add_assoc position, Nat.add_right_comm position _ 1, hstep,
            take_takeTo hlt, takeTo_takeTo (Nat.le_of_lt hlt)]
          exact Nat.le_succ_of_le (Stream.indexOf_le (Nat.le_add_right _ _))

/-- What is skipped ends behind the blanks of the last word in it. -/
theorem skip_eq (stop : Lookahead) (message : Option String) {position horizon : Nat}
    (hactual : state.trials = 0) (hindex : state.index = session.tape.words.indexOf position)
    (hhorizon : state.horizon = session.tape.words.indexOf horizon)
    (hposition : position < horizon) (hsize : horizon ≤ session.tape.words.size) :
    let offset := state.offset session
    let first := session.tape.tokenAt state.index
    let last := position +
      Parse.State.runOutside session.words stop (horizon - (position + 1)) (position + 1)
    state.skip session stop message =
      (((((state.emit (.error stop offset)).takeTo (session.tape.words.indexOf last + 1)).emit
        .finish).report ⟨state.index, offset, (session.tape.words.tokenAt last).span.stop,
          (message <|> first.flaw).getD ("unexpected " ++ first.kind.describe), stop⟩).takeTo
        (session.tape.words.indexOf (last + 1))) := by
  have hopened : (state.emit (.error stop (state.offset session))).index =
      session.tape.words.indexOf position := hindex
  have hover := skipOver_eq stop hopened hhorizon hposition hsize
  have hlimit := Parse.runOutside_le session.words stop (horizon - (position + 1)) (position + 1)
  simp only [skip, hactual, Nat.lt_irrefl, if_false, hover]
  exact eatTrivia_word rfl hhorizon (by omega) hsize

end State

/-! ## Steps of both parsers -/

namespace Mirrors

variable {session : Session} {base : Base} {state : State} {other : Parse.State}
  (hmirrors : Mirrors session base state other)

include hmirrors

theorem horizon_le_size : other.horizon ≤ session.tape.words.size :=
  Nat.le_trans hmirrors.horizon_le hmirrors.limit_le

theorem ahead_iff : state.index < state.horizon ↔ other.position < other.horizon := by
  rw [hmirrors.index, hmirrors.horizon, Stream.indexOf_lt_iff hmirrors.horizon_le_size]

theorem position_le_limit : other.position ≤ base.limit :=
  Nat.le_trans hmirrors.position_le hmirrors.horizon_le

theorem position_le_size : other.position ≤ session.tape.words.size :=
  Nat.le_trans hmirrors.position_le hmirrors.horizon_le_size

theorem current : state.current session = other.current session.words := by
  rw [State.current, Parse.State.current, hmirrors.index, Tape.tokenAt_indexOf, ← hmirrors.index]
  simp only [hmirrors.ahead_iff]
  rfl

theorem atEnd : state.atEnd session = other.atEnd session.words := by
  rw [State.atEnd, hmirrors.current, Parse.State.atEnd]

theorem offset : state.offset session = session.tape.words.offsetAt other.position := by
  rw [State.offset, hmirrors.index, Tape.offsetAt_indexOf]

theorem look : Mirrors session base (state.look session) (other.look session.words) := by
  have hbeyond : state.horizon ≤ state.index ∧ state.horizon < session.tape.size ↔
      other.horizon ≤ other.position ∧ other.horizon < session.words.stream.size := by
    rw [← Nat.not_lt, hmirrors.ahead_iff, Nat.not_lt, hmirrors.horizon, ← Tape.indexOf_size,
      Stream.indexOf_lt_iff (Nat.le_refl _)]
    rfl
  unfold State.look Parse.State.look
  simp only [hbeyond]
  split
  · exact { hmirrors with touched := rfl }
  · exact hmirrors

theorem bump : Mirrors session base (state.bump session) other.bump := by
  by_cases hahead : other.position < other.horizon
  · have hlt : state.index < session.tape.words.indexOf (other.position + 1) := by
      rw [hmirrors.index]
      exact Stream.indexOf_lt_succ (Nat.lt_of_lt_of_le hahead hmirrors.horizon_le_size)
    have htake : state.bump session =
        state.takeTo (session.tape.words.indexOf (other.position + 1)) := by
      have hindex : state.take.index = session.tape.words.indexOf other.position + 1 :=
        congrArg (· + 1) hmirrors.index
      rw [State.bump, if_pos (hmirrors.ahead_iff.mpr hahead),
        State.eatTrivia_word hindex hmirrors.horizon hahead hmirrors.horizon_le_size,
        State.take_takeTo hlt]
    rw [htake, Parse.State.bump_of_ahead hahead]
    exact { hmirrors with
      index := rfl
      position_le := hahead
      written := hmirrors.written.push (by
        rw [State.toList_takeTo, hmirrors.index]
        rfl)
      behind := hmirrors.behind.mono (Nat.le_of_lt hlt) }
  · rw [State.bump, if_neg (mt hmirrors.ahead_iff.mp hahead), Parse.State.bump_of_behind hahead]
    exact hmirrors

theorem lowerHorizon :
    state.lowerHorizon.horizon =
        session.tape.words.indexOf (other.lowerHorizon (modeOf base.trials)).horizon ∧
      other.position ≤ (other.lowerHorizon (modeOf base.trials)).horizon := by
  rw [State.lowerHorizon, hmirrors.trials]
  cases base.trials with
  | zero => exact ⟨hmirrors.horizon, hmirrors.position_le⟩
  | succ trials =>
      refine ⟨?_, Nat.le_min.mpr ⟨hmirrors.position_le, Nat.le_refl _⟩⟩
      rw [if_pos (Nat.succ_pos trials), modeOf, Parse.State.lowerHorizon, Stream.indexOf_min,
        ← hmirrors.horizon, ← hmirrors.index]

theorem told_missing (expected : Lookahead) (what : String) :
    Told session.tape.words base.trials base.limit
      ⟨state.index, state.offset session, state.offset session, "expected " ++ what, expected⟩
      ⟨other.position, 0, .missing what, expected⟩ where
  position_le := hmirrors.position_le_limit
  index := hmirrors.index
  actual _ := by
    rw [hmirrors.index, hmirrors.offset]
    rfl

theorem missing (expected : Lookahead) (what : String) :
    Mirrors session base (state.missing session expected what)
      (other.missing (modeOf base.trials) expected what) := by
  have hlast : state.diagnostics.back?.map (·.index) = some state.index ↔
      other.lastReport = some other.position := by
    rw [hmirrors.index]
    exact hmirrors.last _ hmirrors.position_le_size
  by_cases hreported : other.lastReport = some other.position
  · rw [State.missing, if_pos (hlast.mpr hreported), Parse.State.missing_of_reported hreported]
    exact hmirrors
  · obtain ⟨hhorizon, hposition⟩ := hmirrors.lowerHorizon
    rw [State.missing, if_neg (mt hlast.mp hreported), State.lowerHorizon_eq,
      Parse.State.missing_of_unreported hreported]
    exact { hmirrors with
      horizon := hhorizon
      position_le := hposition
      horizon_le := Nat.le_trans (Parse.State.lowerHorizon_le _ other) hmirrors.horizon_le
      written := hmirrors.written.push (by
        rw [hmirrors.offset]
        simp [State.report, State.emit, Shape.events, Shape.reach, Event.taking_self])
      reported := hmirrors.reported.push (hmirrors.told_missing expected what)
      last := .push hmirrors.position_le_size hmirrors.index _
      behind := .push (Nat.le_refl _) _ }

theorem skip_trial (stop : Lookahead) (message : Option String) (complaint : Complaint)
    (htrial : 0 < base.trials) :
    Mirrors session base (state.skip session stop message)
      (other.skip session.words (modeOf base.trials) stop complaint) := by
  have htold : Told session.tape.words base.trials base.limit
      ⟨state.index, state.offset session, state.offset session, "unexpected token", stop⟩
      ⟨other.position, 0, .unexpected, stop⟩ :=
    ⟨hmirrors.position_le_limit, hmirrors.index, fun hactual =>
      absurd hactual (Nat.ne_of_gt htrial)⟩
  obtain ⟨trials, htrials⟩ := Nat.exists_eq_succ_of_ne_zero (Nat.ne_of_gt htrial)
  simp only [State.skip, hmirrors.trials, htrial, if_true]
  rw [htrials]
  exact { hmirrors with
    horizon := by
      rw [hmirrors.horizon, hmirrors.index, ← Stream.indexOf_min]
      rfl
    position_le := Nat.le_min.mpr ⟨hmirrors.position_le, Nat.le_refl _⟩
    horizon_le := Nat.le_trans (Nat.min_le_left _ _) hmirrors.horizon_le
    reported := hmirrors.reported.push htold
    last := .push hmirrors.position_le_size hmirrors.index _
    behind := .push (Nat.le_refl _) _ }

theorem skip_actual (stop : Lookahead) {message : Option String} {complaint : Complaint}
    (hmessage : ∀ token : Token, (message <|> token.flaw).getD
      ("unexpected " ++ token.kind.describe) = complaint.message token)
    (hactual : base.trials = 0) (hahead : other.position < other.horizon) :
    Mirrors session base (state.skip session stop message)
      (other.skip session.words (modeOf base.trials) stop complaint) := by
  have hstep := State.skip_eq stop message (hmirrors.trials.trans hactual) hmirrors.index
    hmirrors.horizon hahead hmirrors.horizon_le_size
  have hlimit := Parse.runOutside_le session.words stop (other.horizon - (other.position + 1))
    (other.position + 1)
  simp only [hactual, modeOf, Parse.State.skip, Nat.add_comm 1] at hstep ⊢
  generalize Parse.State.runOutside session.words stop
    (other.horizon - (other.position + 1)) (other.position + 1) = rest at hstep hlimit ⊢
  have htold : Told session.tape.words base.trials base.limit
      ⟨state.index, state.offset session,
        (session.tape.words.tokenAt (other.position + rest)).span.stop,
        (message <|> (session.tape.tokenAt state.index).flaw).getD
          ("unexpected " ++ (session.tape.tokenAt state.index).kind.describe), stop⟩
      ⟨other.position, rest + 1, complaint, stop⟩ := by
    refine ⟨hmirrors.position_le_limit, hmirrors.index, fun _ => ?_⟩
    rw [hmessage, hmirrors.index, hmirrors.offset, Tape.tokenAt_indexOf]
    rfl
  rw [hstep]
  exact { hmirrors with
    index := rfl
    position_le := by
      change other.position + (rest + 1) ≤ other.horizon
      omega
    written := hmirrors.written.push (by
      rw [State.toList_takeTo, Shape.events, ← hmirrors.offset, ← hmirrors.index]
      simp [State.report, State.emit, State.takeTo, Shape.reach, Event.taking, Nat.add_assoc])
    reported := hmirrors.reported.push htold
    last := .push hmirrors.position_le_size hmirrors.index _
    behind := .push (hmirrors.index ▸ Stream.indexOf_le (by omega)) _ }

theorem skip (stop : Lookahead) {message : Option String} {complaint : Complaint}
    (hmessage : ∀ token : Token, (message <|> token.flaw).getD
      ("unexpected " ++ token.kind.describe) = complaint.message token)
    (hahead : other.position < other.horizon) :
    Mirrors session base (state.skip session stop message)
      (other.skip session.words (modeOf base.trials) stop complaint) := by
  rcases Nat.eq_zero_or_pos base.trials with hactual | htrial
  · exact hmirrors.skip_actual stop hmessage hactual hahead
  · exact hmirrors.skip_trial stop message complaint htrial

/-- What lies between the start and the finish of a node becomes its children. -/
theorem nest (kind : NodeKind) (enter : State → State) (body : Parse.State → Parse.State)
    (hbody : ∀ {inner : Base} {state : State} {other : Parse.State},
      Mirrors session inner state other → inner.trials = base.trials →
        Mirrors session inner (enter state) (body other)) :
    Mirrors session base
      ((enter (state.emit (.start kind (state.offset session)))).emit .finish)
      (other.nest kind body) := by
  have hwithin : Mirrors session
      { base with
        events := (state.emit (.start kind (state.offset session))).events.toList, built := [] }
      (state.emit (.start kind (state.offset session))) { other with built := [] } :=
    { hmirrors with written := ⟨[], rfl, (List.append_nil _).symm⟩ }
  have hinner := hbody hwithin rfl
  obtain ⟨shapes, hbuilt, hevents⟩ := hinner.written
  exact { hinner with
    written := hmirrors.written.push (by
      rw [State.emit, Array.toList_push, hevents, hbuilt, State.emit, Array.toList_push,
        hmirrors.offset, Shape.events, List.append_nil]
      simp) }

end Mirrors

end Descent

end LosslessTree
