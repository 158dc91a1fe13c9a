import Mathlib.Data.List.Chain
import LosslessTree.Proofs.Parse.Motion
import LosslessTree.Proofs.Parse.Regions

/-!
How close reports come to each other. They stand in the order of the text, and what one of them
skips no other one covers. If something is missing in front of a token, what comes next finds the
token among those that it may begin with or that may follow it, and leaves it alone. There are two
exceptions, and these are all: the token may begin a match of a repetition where a separator is due,
or the node that it begins is too deep.
-/

namespace LosslessTree

open Grammar

inductive Report.Again (grammar : Grammar) (stream : Stream) (report : Report) : Prop where
  | tooDeep (hcomplaint : report.complaint = .tooDeep)
  | unseparated {place : Place} {follow : Lookahead} (hplace : grammar.Has place)
      (hseparator : place.slot.separator ≠ none)
      (hadmits : place.first.admits (stream.tokenAt report.position) = true)
      (hcomplaint : report.complaint = .unexpected)
      (hexpected : report.expected = recoveryOf place follow)

/-- A report comes behind another one. It is at the same place only if something is missing in front
of tokens that it skips. -/
structure Report.Spaced (grammar : Grammar) (stream : Stream) (earlier later : Report) : Prop where
  le : earlier.position + earlier.extent ≤ later.position
  again : later.position = earlier.position → (∃ what, earlier.complaint = .missing what) ∧
    0 < later.extent ∧ later.Again grammar stream

namespace Parse

structure State.Orderly (session : Session) (state : State) : Prop where
  bound : state.horizon = session.stream.size
  last : state.lastReport = state.reports.head?.map (·.position)
  behind : ∀ report ∈ state.reports.head?, report.position + report.extent ≤ state.position
  empty : ∀ report ∈ state.reports.head?, report.extent = 0 →
    ∃ what, report.complaint = .missing what
  spaced : state.reports.IsChain fun later earlier =>
    earlier.Spaced session.grammar session.stream later

/-- If something has been reported at the token in front, then a set admits this token. -/
structure State.Ready (session : Session) (set : Lookahead) (state : State) : Prop
    extends state.Orderly session where
  settled : state.lastReport = some state.position →
    (state.current session).kind = .eof ∨ set.admits (state.current session) = true

variable {session : Session} {state : State} {set other : Lookahead}

namespace State

theorem Orderly.ready (horderly : state.Orderly session)
    (hfit : (state.current session).kind = .eof ∨ set.admits (state.current session) = true) :
    state.Ready session set :=
  ⟨horderly, fun _ => hfit⟩

theorem Ready.mono (hready : state.Ready session set)
    (hset : set.admits (state.current session) = true →
      other.admits (state.current session) = true) : state.Ready session other :=
  ⟨hready.toOrderly, fun hlast => (hready.settled hlast).imp_right hset⟩

theorem Ready.unreported (hready : state.Ready session set)
    (hend : (state.current session).kind ≠ .eof)
    (hset : set.admits (state.current session) = false) :
    state.lastReport ≠ some state.position := by
  intro hlast
  rcases hready.settled hlast with heof | hadmits
  · exact hend heof
  · rw [hset] at hadmits
    cases hadmits

theorem Orderly.last_le (horderly : state.Orderly session) {position : Nat}
    (hlast : state.lastReport = some position) : position ≤ state.position := by
  rw [horderly.last] at hlast
  obtain ⟨report, hreport, rfl⟩ := Option.map_eq_some_iff.mp hlast
  exact Nat.le_trans (Nat.le_add_right _ _) (horderly.behind report hreport)

theorem Orderly.touch (horderly : state.Orderly session) (touched : Bool) :
    Orderly session { state with touched } :=
  ⟨horderly.bound, horderly.last, horderly.behind, horderly.empty, horderly.spaced⟩

theorem Ready.touch (hready : state.Ready session set) (touched : Bool) :
    Ready session set { state with touched } :=
  ⟨hready.toOrderly.touch touched, hready.settled⟩

theorem Ready.look (hready : state.Ready session set) :
    (state.look session).Ready session set := by
  rw [State.look_eq]
  exact hready.touch _

theorem Orderly.look (horderly : state.Orderly session) :
    (state.look session).Orderly session := by
  rw [State.look_eq]
  exact horderly.touch _

theorem Orderly.report (horderly : state.Orderly session) {report : Report} {after : State}
    (hposition : report.position = state.position)
    (hafter : after.position = report.position + report.extent)
    (hhorizon : after.horizon = state.horizon) (hreports : after.reports = report :: state.reports)
    (hlast : after.lastReport = some report.position)
    (hempty : report.extent = 0 → ∃ what, report.complaint = .missing what)
    (hagain : state.lastReport = some state.position →
      0 < report.extent ∧ report.Again session.grammar session.stream) :
    after.Orderly session where
  bound := hhorizon.trans horderly.bound
  last := by rw [hlast, hreports, List.head?_cons, Option.map_some]
  behind other hother := by
    rw [hreports, List.head?_cons] at hother
    rw [← Option.some.inj hother, hafter]
  empty other hother := by
    rw [hreports, List.head?_cons] at hother
    rwa [← Option.some.inj hother]
  spaced := by
    rw [hreports]
    refine List.isChain_cons.mpr ⟨fun earlier hearlier => ?_, horderly.spaced⟩
    have hle := horderly.behind earlier hearlier
    rw [← hposition] at hle
    refine ⟨hle, fun hsame => ⟨horderly.empty earlier hearlier (by omega), hagain ?_⟩⟩
    rw [horderly.last, hearlier, Option.map_some, ← hsame, hposition]

theorem Orderly.skip (horderly : state.Orderly session) (set stop : Lookahead)
    {complaint : Complaint}
    (hagain : state.lastReport = some state.position → ∀ extent,
      Report.Again session.grammar session.stream ⟨state.position, extent, complaint, stop⟩) :
    (state.skip session .actual stop complaint).Ready session set where
  toOrderly := horderly.report rfl rfl rfl rfl rfl (fun hnone => absurd hnone (by simp))
    fun hlast => ⟨by simp, hagain hlast _⟩
  settled hlast := by
    have hsame : state.position = state.position + (1 + _) := Option.some.inj hlast
    omega

theorem Ready.skip (hready : state.Ready session set)
    (hend : (state.current session).kind ≠ .eof)
    (hset : set.admits (state.current session) = false) (other stop : Lookahead)
    (complaint : Complaint) :
    (state.skip session .actual stop complaint).Ready session other :=
  hready.toOrderly.skip other stop fun hlast => absurd hlast (hready.unreported hend hset)

theorem Orderly.missing (horderly : state.Orderly session)
    (hfit : (state.current session).kind = .eof ∨ set.admits (state.current session) = true)
    (expected : Lookahead) (what : String) :
    (state.missing .actual expected what).Ready session set := by
  by_cases hlast : state.lastReport = some state.position
  · rw [missing_of_reported hlast]
    exact horderly.ready hfit
  · rw [missing_of_unreported hlast]
    have hafter : Orderly session { state with
        built := .error expected state.position 0 :: state.built
        reports := ⟨state.position, 0, .missing what, expected⟩ :: state.reports
        lastReport := some state.position } :=
      horderly.report rfl rfl rfl rfl rfl (fun _ => ⟨what, rfl⟩) fun hreported =>
        absurd hreported hlast
    exact hafter.ready hfit

theorem Orderly.bump (horderly : state.Orderly session)
    (hfinal : session.stream.final.kind = .eof) (set : Lookahead) :
    state.bump.Ready session set := by
  by_cases hahead : state.position < state.horizon
  · rw [bump_of_ahead hahead]
    refine ⟨⟨horderly.bound, horderly.last, fun report hreport => ?_, horderly.empty,
      horderly.spaced⟩, fun hlast => ?_⟩
    · exact Nat.le_succ_of_le (horderly.behind report hreport)
    · exact absurd (horderly.last_le hlast) (Nat.not_succ_le_self _)
  · rw [bump_of_behind hahead]
    apply horderly.ready
    left
    rw [State.current, if_neg hahead, hfinal]

end State

structure Settles (session : Session) (rules : Rules) (enter : Enter) : Prop
    extends Advances session rules enter where
  ready {kind : NodeKind} {recovery : Lookahead} {state : State} :
    session.grammar.Mentions kind →
      state.Ready session (((Rules.analyse rules).facts kind).first.union recovery) →
        (enter .actual kind recovery state).Ready session recovery

section

variable {rules : Rules} {enter : Enter} {follow : Lookahead}
  (hbuild : build rules = .ok session.grammar) (hfinal : session.stream.final.kind = .eof)
  (hsettles : Settles session rules enter)

include hbuild hfinal hsettles

variable (hreuse : session.reuse = false) {place : Place} (hplace : session.grammar.Has place)

include hreuse hplace

omit hplace

end

/-! ## A whole parse -/

section

variable {rules : Rules} (hbuild : build rules = .ok session.grammar)
  (hfinal : session.stream.final.kind = .eof) (hreuse : session.reuse = false)

include hbuild hfinal hreuse

end

variable {rules : Rules} {grammar : Grammar} {start : NodeKind} {tokens : List Token}

def pairs : Rules :=
  [(.construct .listExpression, [.all [.token .leftBracket],
    .someSeparated (.node (.construct .typeTerm)) .comma, .all [.token .rightBracket]]),
    (.construct .typeTerm, [.all [.token .leftParen, .token .varId, .token .rightParen]])]

end Parse

end LosslessTree
