import LosslessTree.Proofs.Parse.Abreast

/-!
How far a choice looks ahead. Nothing is read but through the horizon, and the window of some trials
is a horizon. Two trials within one window, over tokens that agree up to its end, therefore stay in
states that differ only in what was built and in whether something beyond was looked at. They come
to the same rank, whether the tokens go on beyond the window or end there.
-/

namespace LosslessTree

theorem Lookahead.admits_of_eof (set : Lookahead) {token : Token} (heof : token.kind = .eof) :
    set.admits token = set.kinds.contains .eof := by
  rw [admits, heof]
  exact Bool.or_false _

namespace Parse

open Grammar

/-! ## States side by side -/

structure AgreeBefore (left right : Session) (limit : Nat) : Prop where
  grammar : right.grammar = left.grammar
  window : right.window = left.window
  leftSize : limit ≤ left.stream.size
  rightSize : limit ≤ right.stream.size
  token : ∀ position < limit,
    (left.stream.tokenAt position).Same (right.stream.tokenAt position)
  leftFinal : left.stream.final.kind = .eof
  rightFinal : right.stream.final.kind = .eof

/-- States that come to the same rank as long as nothing beyond a limit is seen. -/
structure Beside (limit : Nat) (state other : State) : Prop where
  position : state.position = other.position
  horizon : state.horizon = other.horizon
  within : state.horizon ≤ limit
  reports : state.reports = other.reports
  lastReport : state.lastReport = other.lastReport

variable {left right : Session} {limit : Nat} {state other : State}

namespace Beside

theorem look (h : Beside limit state other) :
    Beside limit (state.look left) (other.look right) := by
  rw [State.look_eq, State.look_eq]
  exact ⟨h.position, h.horizon, h.within, h.reports, h.lastReport⟩

/-- Beyond the horizon both see an end of text, which no set tells from another. -/
theorem sameView (h : Beside limit state other) (hagree : AgreeBefore left right limit) :
    SameView left right state other := by
  have hahead : state.position < state.horizon ↔ other.position < other.horizon := by
    rw [h.position, h.horizon]
  by_cases hleft : state.position < state.horizon
  · have hsame : (state.current left).Same (other.current right) := by
      rw [State.current, State.current, if_pos hleft, if_pos (hahead.mp hleft), ← h.position]
      exact hagree.token _ (Nat.lt_of_lt_of_le hleft h.within)
    exact ⟨hahead, hsame.kind, fun set => hsame.admits_eq set⟩
  · have hcurrent : (state.current left).kind = .eof := by
      rw [State.current, if_neg hleft, hagree.leftFinal]
    have hother : (other.current right).kind = .eof := by
      rw [State.current, if_neg (mt hahead.mpr hleft), hagree.rightFinal]
    refine ⟨hahead, hcurrent.trans hother.symm, fun set => ?_⟩
    rw [set.admits_of_eof hcurrent, set.admits_of_eof hother]

theorem bump (h : Beside limit state other) : Beside limit state.bump other.bump := by
  by_cases hahead : state.position < state.horizon
  · rw [State.bump_of_ahead hahead, State.bump_of_ahead (h.position ▸ h.horizon ▸ hahead)]
    exact ⟨congrArg (· + 1) h.position, h.horizon, h.within, h.reports, h.lastReport⟩
  · rw [State.bump_of_behind hahead, State.bump_of_behind (h.position ▸ h.horizon ▸ hahead)]
    exact h

theorem reported (h : Beside limit state other) {after otherAfter : State} (report : Report)
    (hleft : after.position = state.position ∧ after.horizon = min state.horizon state.position ∧
      after.reports = report :: state.reports ∧ after.lastReport = some report.position)
    (hright : otherAfter.position = other.position ∧
      otherAfter.horizon = min other.horizon other.position ∧
      otherAfter.reports = report :: other.reports ∧
      otherAfter.lastReport = some report.position) : Beside limit after otherAfter := by
  obtain ⟨hposition, hhorizon, hreports, hlast⟩ := hleft
  obtain ⟨hpositionOther, hhorizonOther, hreportsOther, hlastOther⟩ := hright
  constructor
  · rw [hposition, hpositionOther, h.position]
  · rw [hhorizon, hhorizonOther, h.position, h.horizon]
  · rw [hhorizon]
    exact Nat.le_trans (Nat.min_le_left _ _) h.within
  · rw [hreports, hreportsOther, h.reports]
  · rw [hlast, hlastOther]

theorem skip (h : Beside limit state other) (stop : Lookahead) (complaint : Complaint) :
    Beside limit (state.skip left .trial stop complaint)
      (other.skip right .trial stop complaint) :=
  h.reported ⟨state.position, 0, .unexpected, stop⟩ ⟨rfl, rfl, rfl, rfl⟩
    (by rw [h.position]; exact ⟨rfl, rfl, rfl, rfl⟩)

theorem missing (h : Beside limit state other) (expected : Lookahead) (what : String) :
    Beside limit (state.missing .trial expected what) (other.missing .trial expected what) := by
  by_cases hlast : state.lastReport = some state.position
  · have hother : other.lastReport = some other.position := by
      rw [← h.lastReport, ← h.position, hlast]
    rw [State.missing_of_reported hlast, State.missing_of_reported hother]
    exact h
  · have hother : other.lastReport ≠ some other.position := by
      rwa [← h.lastReport, ← h.position]
    rw [State.missing_of_unreported hlast, State.missing_of_unreported hother]
    exact h.reported ⟨state.position, 0, .missing what, expected⟩ ⟨rfl, rfl, rfl, rfl⟩
      (by rw [h.position]; exact ⟨rfl, rfl, rfl, rfl⟩)

theorem rank_eq (hposition : state.position = other.position) {outcome otherOutcome : State}
    (h : Beside limit outcome otherOutcome) : rank state outcome = rank other otherOutcome := by
  rw [rank, rank, h.reports, h.position, hposition]

end Beside

theorem lockstep_beside (hagree : AgreeBefore left right limit) :
    Lockstep left right .trial .trial (fun _ => False) (Beside limit) where
  lost := respected_false
  lost_built _ := id
  position h := h.position
  look h := .inr ⟨h.look, h.look.sameView hagree⟩
  bump h _ := h.bump
  skip stop complaint h _ := .inr (h.skip stop complaint)
  missing expected what h := .inr (h.missing expected what)
  inside h := ⟨h.position, h.horizon, h.within, h.reports, h.lastReport⟩
  outside _ _ hinner :=
    ⟨hinner.position, hinner.horizon, hinner.within, hinner.reports, hinner.lastReport⟩

/-! ## Trials side by side -/

def EntersBeside (leftEnter rightEnter : Enter) (limit : Nat) : Prop :=
  ∀ kind recovery {state other : State}, Beside limit state other →
    Beside limit (leftEnter .trial kind recovery state) (rightEnter .trial kind recovery other)

theorem EntersBeside.element {leftEnter rightEnter : Enter}
    (henter : EntersBeside leftEnter rightEnter limit) (part : Part) (recovery : Lookahead)
    (h : Beside limit state other) :
    Beside limit (element leftEnter .trial part recovery state)
      (element rightEnter .trial part recovery other) := by
  unfold Parse.element
  split
  · exact h.bump
  · exact h.bump
  · exact henter _ recovery h

/-- The window of a trial within a trial never ends beyond that of the outer one. -/
theorem Beside.onTrial (hagree : AgreeBefore left right limit) (h : Beside limit state other) :
    Beside limit (state.onTrial left) (other.onTrial right) := by
  have hwithin := h.within
  have hleft := hagree.leftSize
  have hright := hagree.rightSize
  refine ⟨h.position, ?_, Nat.le_trans (windowEnd_le state) hwithin, rfl, h.lastReport⟩
  change windowEnd left state = windowEnd right other
  rw [windowEnd, windowEnd, hagree.window, ← h.position, ← h.horizon]
  omega

theorem EntersBeside.speculate {leftEnter rightEnter : Enter}
    (henter : EntersBeside leftEnter rightEnter limit) (hagree : AgreeBefore left right limit)
    (hleft : left.reuse = false) (hright : right.reuse = false) {candidates : List Part}
    (hcandidates : candidates ≠ []) (recovery : Lookahead) (h : Beside limit state other) :
    Beside limit (speculate leftEnter left .trial candidates recovery state)
      (speculate rightEnter right .trial candidates recovery other) := by
  have hrank (part : Part) : rank state (attempt leftEnter left recovery state part) =
      rank other (attempt rightEnter right recovery other part) :=
    Beside.rank_eq h.position (henter.element part recovery (h.onTrial hagree))
  cases candidates with
  | nil => exact absurd rfl hcandidates
  | cons first others =>
      obtain ⟨winner, -, hbest, hother⟩ := best_parallel first others fun part _ => hrank part
      rw [speculate_eq_element hleft, speculate_eq_element hright, hbest, hother]
      exact henter.element winner recovery
        ⟨h.position, h.horizon, h.within, h.reports, h.lastReport⟩

/-- Streams of different sizes allow for different numbers of rounds, but neither number cuts a
repetition short. -/
theorem sharedRounds_beside (hagree : AgreeBefore left right limit) (hleft : left.reuse = false)
    (hright : right.reuse = false) (levels : Nat) :
    SharedRounds left right .trial .trial (node left levels) (node right levels)
      (Beside limit) := by
  intro place hparts follow recovery state other h
  have hbound : state.horizon ≤ left.stream.size := Nat.le_trans h.within hagree.leftSize
  have hboundOther : other.horizon ≤ right.stream.size :=
    Nat.le_trans (h.horizon ▸ h.within) hagree.rightSize
  refine ⟨(left.stream.size - state.position + 1) + (right.stream.size - other.position + 1),
    (matchAll_ample hagree.leftFinal hleft levels .trial hparts follow recovery _ hbound).symm, ?_⟩
  rw [Nat.add_comm (left.stream.size - state.position + 1)]
  exact (matchAll_ample hagree.rightFinal hright levels .trial
    (by rwa [hagree.grammar]) follow recovery _ hboundOther).symm

theorem node_beside (hagree : AgreeBefore left right limit) (hleft : left.reuse = false)
    (hright : right.reuse = false) (levels : Nat) :
    EntersBeside (node left levels) (node right levels) limit := by
  have hstep := lockstep_beside hagree
  induction levels with
  | zero =>
      intro kind recovery state other h
      have hcut := hstep.cut hagree.leftFinal (hstep.inside h)
      exact (hstep.nest h kind hcut).resolve_left id
  | succ levels ih =>
      intro kind recovery state other h
      have hbody := hstep.body hagree.leftFinal hleft (fun _ _ _ => id)
        (fun _ recovery _ _ h => .inr (ih _ recovery h))
        (fun hcandidates _ recovery _ _ h _ =>
          .inr (ih.speculate hagree hleft hright hcandidates recovery h))
        (sharedRounds_beside hagree hleft hright levels)
        (congrArg (Grammar.production? · kind) hagree.grammar) recovery (hstep.inside h)
      exact (hstep.nest h kind hbody).resolve_left id

/-! ## Choices -/

theorem windowEnd_le_size (session : Session) (state : State) :
    windowEnd session state ≤ session.stream.size :=
  Nat.le_trans (Nat.min_le_left _ _) (Nat.min_le_right _ _)

theorem attempt_eq_afresh {session : Session} (hfinal : session.stream.final.kind = .eof)
    (hwindow : 0 < session.window) (levels : Nat) (recovery : Lookahead) (state : State)
    (part : Part) :
    attempt (node session levels) session recovery state part =
      attempt (node session.afresh levels) session.afresh recovery state part :=
  element_congr (fun kind recovery => node_eq_afresh hfinal hwindow levels .trial kind recovery
    (windowEnd_le_size session state)) part recovery

theorem rank_eq_of_agree (hagree : AgreeBefore left right limit) (hwindow : 0 < left.window)
    (hlimit : windowEnd left state = limit) (hother : windowEnd right other = limit)
    (hposition : state.position = other.position) (hlast : state.lastReport = other.lastReport)
    (levels : Nat) (recovery : Lookahead) (part : Part) :
    rank state (attempt (node left levels) left recovery state part) =
      rank other (attempt (node right levels) right recovery other part) := by
  have hafresh : AgreeBefore left.afresh right.afresh limit :=
    ⟨hagree.grammar, hagree.window, hagree.leftSize, hagree.rightSize, hagree.token,
      hagree.leftFinal, hagree.rightFinal⟩
  have hstart : Beside limit (state.onTrial left.afresh) (other.onTrial right.afresh) :=
    ⟨hposition, hlimit.trans hother.symm, Nat.le_of_eq hlimit, rfl, hlast⟩
  rw [attempt_eq_afresh hagree.leftFinal hwindow,
    attempt_eq_afresh hagree.rightFinal (hagree.window ▸ hwindow)]
  exact Beside.rank_eq hposition
    ((node_beside hafresh rfl rfl levels).element part recovery hstart)

end Parse

end LosslessTree
