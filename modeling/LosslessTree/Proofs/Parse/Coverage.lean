import LosslessTree.Proofs.Words.Basic
import LosslessTree.Proofs.Parse.Steps
import LosslessTree.Proofs.Parse.Stream

/-!
Actual parsing takes each position once and in order, and writes down a report with each error
shape. So a whole parse covers its stream from the first position to the last.
-/

namespace LosslessTree

namespace Parse

open Grammar

/-- Shapes over the positions from one to another, with the reports of their errors in order. -/
inductive Covers (grammar : Grammar) (size : Nat) :
    List Shape → List Report → (start : Nat) → (stop : Nat) → Prop where
  | nil (start : Nat) : Covers grammar size [] [] start start
  | token {start stop : Nat} {rest : List Shape} {reports : List Report}
      (hstart : start < size) (hrest : Covers grammar size rest reports (start + 1) stop) :
      Covers grammar size (.token start :: rest) reports start stop
  | node {kind : NodeKind} {start middle stop : Nat} {children rest : List Shape}
      {inner outer : List Report} (hkind : grammar.Mentions kind)
      (hchildren : Covers grammar size children inner start middle)
      (hrest : Covers grammar size rest outer middle stop) :
      Covers grammar size (.node kind start children :: rest) (inner ++ outer) start stop
  | error {report : Report} {stop : Nat} {rest : List Shape} {reports : List Report}
      (hextent : report.position + report.extent ≤ size)
      (hrest : Covers grammar size rest reports (report.position + report.extent) stop) :
      Covers grammar size (.error report.expected report.position report.extent :: rest)
        (report :: reports) report.position stop

namespace Covers

variable {grammar : Grammar} {size start middle stop : Nat} {shapes more : List Shape}
  {reports others : List Report}

theorem start_le_stop (hcovers : Covers grammar size shapes reports start stop) :
    start ≤ stop := by
  induction hcovers with
  | nil => exact Nat.le_refl _
  | token _ _ ih => omega
  | node _ _ _ ihchildren ihrest => exact Nat.le_trans ihchildren ihrest
  | error _ _ ih => omega

theorem stop_le_size (hcovers : Covers grammar size shapes reports start stop)
    (hstart : start ≤ size) : stop ≤ size := by
  induction hcovers with
  | nil => exact hstart
  | token hlt _ ih => exact ih hlt
  | node _ _ _ ihchildren ihrest => exact ihrest (ihchildren hstart)
  | error hextent _ ih => exact ih hextent

theorem append (hfirst : Covers grammar size shapes reports start middle)
    (hsecond : Covers grammar size more others middle stop) :
    Covers grammar size (shapes ++ more) (reports ++ others) start stop := by
  induction hfirst with
  | nil => exact hsecond
  | token hstart _ ih => exact .token hstart (ih hsecond)
  | node hkind hchildren _ _ ih =>
      rw [List.append_assoc]
      exact .node hkind hchildren (ih hsecond)
  | error hextent _ ih => exact .error hextent (ih hsecond)

theorem split (hcovers : Covers grammar size (shapes ++ more) reports start stop) :
    ∃ first second middle, reports = first ++ second ∧
      Covers grammar size shapes first start middle ∧
      Covers grammar size more second middle stop := by
  induction shapes generalizing reports start with
  | nil => exact ⟨[], reports, start, rfl, .nil start, hcovers⟩
  | cons shape rest ih =>
      cases hcovers with
      | token hstart hrest =>
          obtain ⟨first, second, middle, heq, hfirst, hsecond⟩ := ih hrest
          exact ⟨first, second, middle, heq, .token hstart hfirst, hsecond⟩
      | node hkind hchildren hrest =>
          obtain ⟨first, second, middle, heq, hfirst, hsecond⟩ := ih hrest
          exact ⟨_, second, middle, by rw [heq, List.append_assoc], .node hkind hchildren hfirst,
            hsecond⟩
      | error hextent hrest =>
          obtain ⟨first, second, middle, heq, hfirst, hsecond⟩ := ih hrest
          exact ⟨_, second, middle, congrArg _ heq, .error hextent hfirst, hsecond⟩

theorem exists_at (hcovers : Covers grammar size shapes reports start stop) {position : Nat}
    (hstart : start ≤ position) (hstop : position < stop) :
    ∃ before shape after low high first second third, shapes = before ++ shape :: after ∧
      reports = first ++ second ++ third ∧ Covers grammar size before first start low ∧
      Covers grammar size [shape] second low high ∧ low ≤ position ∧ position < high := by
  induction shapes generalizing reports start with
  | nil =>
      cases hcovers
      omega
  | cons shape rest ih =>
      obtain ⟨own, others, middle, rfl, hown, hrest⟩ :=
        split (show Covers grammar size ([shape] ++ rest) reports start stop from hcovers)
      by_cases hmiddle : position < middle
      · exact ⟨[], shape, rest, start, middle, [], own, others, rfl, rfl, .nil start, hown, hstart,
          hmiddle⟩
      · obtain ⟨before, other, after, low, high, first, second, third, heq, rfl, hbefore, hother,
          hlow, hhigh⟩ := ih hrest (by omega)
        exact ⟨shape :: before, other, after, low, high, own ++ first, second, third,
          congrArg _ heq, by simp only [List.append_assoc], hown.append hbefore, hother, hlow, hhigh⟩

theorem extent_le (hcovers : Covers grammar size shapes reports start stop) {report : Report}
    (hreport : report ∈ reports) : report.position + report.extent ≤ size := by
  induction hcovers with
  | nil => cases hreport
  | token _ _ ih => exact ih hreport
  | node _ _ _ ihchildren ihrest =>
      rcases List.mem_append.mp hreport with hinner | houter
      · exact ihchildren hinner
      · exact ihrest houter
  | error hextent _ ih =>
      rcases List.mem_cons.mp hreport with heq | hrest
      · subst heq
        exact hextent
      · exact ih hrest

end Covers

/-- What has been added to a state covers the way that it has gone. -/
structure Covered (session : Session) (before after : State) : Prop where
  horizon : after.horizon = before.horizon
  record : ∃ shapes reports, after.built = shapes.reverse ++ before.built ∧
    after.reports = reports.reverse ++ before.reports ∧
    Covers session.grammar session.stream.size shapes reports before.position after.position

variable {session : Session}

theorem Covered.refl (session : Session) (state : State) : Covered session state state :=
  ⟨rfl, [], [], rfl, rfl, .nil _⟩

theorem Covered.trans {first second third : State} (hfirst : Covered session first second)
    (hsecond : Covered session second third) : Covered session first third := by
  obtain ⟨hhorizon, shapes, reports, hbuilt, hreports, hcovers⟩ := hfirst
  obtain ⟨hnext, more, others, hmore, hothers, hrest⟩ := hsecond
  refine ⟨hnext.trans hhorizon, shapes ++ more, reports ++ others, ?_, ?_,
    hcovers.append hrest⟩
  · rw [hmore, hbuilt, List.reverse_append, List.append_assoc]
  · rw [hothers, hreports, List.reverse_append, List.append_assoc]

theorem runOutside_le (session : Session) (stop : Lookahead) (limit position : Nat) :
    State.runOutside session stop limit position ≤ limit := by
  induction limit generalizing position with
  | zero => exact Nat.le_refl _
  | succ limit ih =>
      unfold State.runOutside
      split
      · exact Nat.zero_le _
      · exact Nat.succ_le_succ (ih _)

theorem Covered.bump {state : State} (hahead : state.position < state.horizon)
    (hbound : state.horizon = session.stream.size) : Covered session state state.bump := by
  rw [State.bump_of_ahead hahead]
  exact ⟨rfl, [.token state.position], [], rfl, rfl, .token (hbound ▸ hahead) (.nil _)⟩

theorem Covered.skip {state : State} (hahead : state.position < state.horizon)
    (hbound : state.horizon = session.stream.size) (stop : Lookahead) (complaint : Complaint) :
    Covered session state (state.skip session .actual stop complaint) := by
  have hrun := runOutside_le session stop (state.horizon - (state.position + 1))
    (state.position + 1)
  let report : Report := ⟨state.position,
    1 + State.runOutside session stop (state.horizon - (state.position + 1)) (state.position + 1),
    complaint, stop⟩
  refine ⟨rfl, [.error report.expected report.position report.extent], [report], rfl, rfl, ?_⟩
  refine .error ?_ (.nil _)
  change state.position + (1 + State.runOutside session stop
    (state.horizon - (state.position + 1)) (state.position + 1)) ≤ session.stream.size
  omega

theorem Covered.missing {state : State} (hstate : state.position ≤ session.stream.size)
    (expected : Lookahead) (what : String) :
    Covered session state (state.missing .actual expected what) := by
  by_cases hlast : state.lastReport = some state.position
  · rw [State.missing_of_reported hlast]
    exact .refl session state
  · rw [State.missing_of_unreported hlast]
    let report : Report := ⟨state.position, 0, .missing what, expected⟩
    exact ⟨rfl, [.error report.expected report.position report.extent], [report], rfl, rfl,
      .error hstate (.nil _)⟩

theorem Covered.nest {state inner : State} {kind : NodeKind}
    (hkind : session.grammar.Mentions kind)
    (hinner : Covered session { state with built := [] } inner) :
    Covered session state
      { inner with built := .node kind state.position inner.built.reverse :: state.built } := by
  obtain ⟨hhorizon, shapes, reports, hbuilt, hreports, hcovers⟩ := hinner
  refine ⟨hhorizon, [.node kind state.position shapes], reports, ?_, hreports, ?_⟩
  · simp only [hbuilt, List.append_nil, List.reverse_reverse]
    rfl
  · have hnode := Covers.node hkind hcovers (.nil inner.position)
    rwa [List.append_nil] at hnode

theorem respected_covered (session : Session) : Respected session .actual fun before after =>
    before.horizon = session.stream.size → before.position ≤ session.stream.size →
      Covered session before after where
  refl state _ _ := .refl session state
  trans hfirst hsecond hbound hposition := by
    have hmiddle := hfirst hbound hposition
    obtain ⟨shapes, reports, -, -, hcovers⟩ := hmiddle.record
    exact hmiddle.trans
      (hsecond (hmiddle.horizon.trans hbound) (hcovers.stop_le_size hposition))
  touch state touched _ _ := ⟨rfl, [], [], rfl, rfl, .nil _⟩
  bump state hahead hbound _ := .bump hahead hbound
  skip state stop complaint hahead hbound _ := .skip hahead hbound stop complaint
  missing state expected what _ hposition := .missing hposition expected what
  nest state inner kind hkind hinner hbound hposition := .nest hkind (hinner hbound hposition)

/-! ## The whole stream -/

theorem runOutside_of_none {stop : Lookahead} {limit position : Nat}
    (hnone : ∀ other, position ≤ other → other < position + limit →
      stop.admits (session.stream.tokenAt other) = false) :
    State.runOutside session stop limit position = limit := by
  induction limit generalizing position with
  | zero => rfl
  | succ limit ih =>
      unfold State.runOutside
      rw [hnone position (Nat.le_refl _) (by omega), ih fun other hlow hhigh =>
        hnone other (by omega) (by omega)]
      rfl

/-- Whatever is left over is skipped, as there is no end of text before the end. -/
theorem run_position (hfinal : session.stream.final.kind = .eof)
    (hsignificant : session.stream.Significant) (hreuse : session.reuse = false)
    (start : NodeKind) : (run session start).position = session.stream.size := by
  have hcovered := respected_covered session
  have hbody := hcovered.body hfinal hreuse (hcovered.node hfinal hreuse depthLimit) start
    (.ofKind .eof) (.initial session) rfl (Nat.zero_le _)
  obtain ⟨shapes, reports, -, -, hcovers⟩ := hbody.record
  have hhorizon : _ = session.stream.size := hbody.horizon
  have hposition := hcovers.stop_le_size (Nat.zero_le _)
  unfold run
  dsimp only
  generalize body (node session depthLimit) session .actual start (.ofKind .eof)
    (.initial session) = state at hhorizon hposition ⊢
  rw [State.look_eq]
  split
  · next hend =>
      refine Nat.le_antisymm hposition (Nat.le_of_not_lt fun hlt => ?_)
      change state.position < session.stream.size at hlt
      have hahead : state.position < state.horizon := by omega
      simp only [State.atEnd, State.current, hahead, if_true, beq_iff_eq] at hend
      exact hsignificant _ hlt hend
  · next hend =>
      have hahead : state.position < state.horizon := by
        apply State.ahead_of_current hfinal
        simpa [State.atEnd, State.current] using hend
      have hrest : State.runOutside session (.ofKind .eof)
          (state.horizon - (state.position + 1)) (state.position + 1) =
            state.horizon - (state.position + 1) := by
        apply runOutside_of_none
        intro other _ hother
        have hkind := hsignificant other (by omega)
        simpa using hkind.symm
      simp only [State.skip, State.report, State.push, hrest]
      omega

/-- A whole parse ends with some shapes and reports, which cover the stream. -/
structure Traced (session : Session) (start : NodeKind) (shapes : List Shape)
    (reports : List Report) : Prop where
  built_eq : (run session start).built = shapes.reverse
  reports_eq : (run session start).reports = reports.reverse
  covers : Covers session.grammar session.stream.size shapes reports 0 session.stream.size

theorem exists_traced (hfinal : session.stream.final.kind = .eof)
    (hsignificant : session.stream.Significant) (hreuse : session.reuse = false)
    (start : NodeKind) : ∃ shapes reports, Traced session start shapes reports := by
  have hrun := (respected_covered session).run hfinal hreuse start rfl (Nat.zero_le _)
  obtain ⟨shapes, reports, hbuilt, hreports, hcovers⟩ := hrun.record
  rw [run_position hfinal hsignificant hreuse] at hcovers
  refine ⟨shapes, reports, ?_, ?_, hcovers⟩
  · simpa [State.initial] using hbuilt
  · simpa [State.initial] using hreports

end Parse

end LosslessTree
