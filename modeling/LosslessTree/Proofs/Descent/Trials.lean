import LosslessTree.Proofs.Descent.Steps
import LosslessTree.Proofs.Parse.Rounds

/-!
Trials on tokens and trials on words have the same winner. How far they get is counted in tokens
here and in words there, and ordered alike; what is left behind by a trial is what was built in it.
-/

namespace LosslessTree

namespace Stream

variable {stream : Stream} {position other start : Nat}

theorem indexOf_sub_lt_iff (hother : other ≤ stream.size) :
    stream.indexOf position - stream.indexOf start < stream.indexOf other - stream.indexOf start ↔
      position - start < other - start := by
  have hpositions : stream.indexOf position < stream.indexOf other ↔ position < other :=
    indexOf_lt_iff hother
  have hstarts : stream.indexOf start < stream.indexOf other ↔ start < other :=
    indexOf_lt_iff hother
  omega

end Stream

section

variable {α : Type} {front whole : Array α} (hfront : front.toList <+: whole.toList)

include hfront

theorem shrink_of_isPrefix : whole.shrink front.size = front := by
  apply Array.toList_inj.mp
  rw [Array.toList_shrink, ← Array.length_toList, ← List.prefix_iff_eq_take.mp hfront]

theorem append_extract_of_isPrefix : front ++ whole.extract front.size = whole := by
  apply Array.toList_inj.mp
  rw [Array.toList_append, Array.toList_extract, List.extract_eq_take_drop,
    List.take_of_length_le (Nat.le_of_eq (by simp)), ← Array.length_toList]
  exact List.prefix_iff_eq_append.mp hfront

end

/-- A rank in tokens, and the rank in words that it comes to. -/
structure Ranked (stream : Stream) (limit start : Nat) (rank gist : Rank) : Prop where
  progress : ∃ position ≤ limit,
    rank.progress = stream.indexOf position - stream.indexOf start ∧
      gist.progress = position - start
  errorFree : rank.errorFree = gist.errorFree

theorem Ranked.lt {stream : Stream} {limit start : Nat} {rank gist next nextGist : Rank}
    (hrank : Ranked stream limit start rank gist) (hlimit : limit ≤ stream.size)
    (hnext : Ranked stream limit start next nextGist) : rank.lt next = gist.lt nextGist := by
  obtain ⟨⟨position, hposition, hprogress, hgist⟩, herror⟩ := hrank
  obtain ⟨⟨other, hother, hnextProgress, hnextGist⟩, hnextError⟩ := hnext
  have hlt : rank.progress < next.progress ↔ gist.progress < nextGist.progress := by
    rw [hprogress, hgist, hnextProgress, hnextGist]
    exact Stream.indexOf_sub_lt_iff (Nat.le_trans hother hlimit)
  have hgt : next.progress < rank.progress ↔ nextGist.progress < gist.progress := by
    rw [hprogress, hgist, hnextProgress, hnextGist]
    exact Stream.indexOf_sub_lt_iff (Nat.le_trans hposition hlimit)
  have heq : rank.progress = next.progress ↔ gist.progress = nextGist.progress := by omega
  rw [Bool.eq_iff_iff]
  simp only [Rank.lt, Bool.or_eq_true, Bool.and_eq_true, decide_eq_true_eq, beq_iff_eq, hlt, heq,
    herror, hnextError]

theorem Parse.errorFree_rank (state outcome : Parse.State) :
    (Parse.rank state outcome).errorFree = outcome.reports.isEmpty := by
  unfold Parse.rank
  cases hreports : outcome.reports with
  | nil => rfl
  | cons report rest => rw [List.getLast?_eq_getLast_of_ne_nil (List.cons_ne_nil report rest)]; rfl

namespace Descent

open Grammar

/-- Nodes are parsed alike on tokens and on words. -/
def Follows (session : Session) (enter : Enter) (words : Parse.Enter) : Prop :=
  ∀ (kind : NodeKind) (recovery : Lookahead) {base : Base} {state : State} {other : Parse.State},
    Mirrors session base state other →
      Mirrors session base (enter kind recovery state)
        (words (modeOf base.trials) kind recovery other)

variable {session : Session} {enter : Enter} {words : Parse.Enter} {base : Base} {state : State}
  {other : Parse.State}

theorem Follows.element (henter : Follows session enter words) (part : Part) (recovery : Lookahead)
    (hmirrors : Mirrors session base state other) :
    Mirrors session base (element enter session part recovery state)
      (Parse.element words (modeOf base.trials) part recovery other) := by
  unfold Descent.element Parse.element
  cases part.symbol with
  | token kind => exact hmirrors.bump
  | word text => exact hmirrors.bump
  | node kind => exact henter kind recovery hmirrors

theorem Mirrors.windowEnd (hmirrors : Mirrors session base state other) :
    windowEnd session state =
      session.tape.words.indexOf (Parse.windowEnd session.words other) := by
  rw [Descent.windowEnd, hmirrors.index, Tape.windowEnd_indexOf hmirrors.position_le_size,
    hmirrors.horizon, ← Stream.indexOf_min]
  rfl

/-! ## One trial -/

theorem Mirrors.position_le_windowEnd (hmirrors : Mirrors session base state other) :
    other.position ≤ Parse.windowEnd session.words other := by
  refine Nat.le_min.mpr ⟨Nat.le_min.mpr ⟨Nat.le_add_right _ _, ?_⟩, hmirrors.position_le⟩
  exact hmirrors.position_le_size

theorem Mirrors.windowEnd_le_size (hmirrors : Mirrors session base state other) :
    Parse.windowEnd session.words other ≤ session.tape.words.size :=
  Nat.le_trans (Parse.windowEnd_le other) hmirrors.horizon_le_size

theorem Base.Written.trans {inner : Base} {stream : Stream} {events later : Array Event}
    {built more : List Shape} (hwritten : base.Written stream events built)
    (hlater : inner.Written stream later more) (hevents : inner.events = events.toList)
    (hbuilt : inner.built = built) : base.Written stream later more := by
  obtain ⟨shapes, rfl, hshapes⟩ := hwritten
  obtain ⟨others, rfl, hothers⟩ := hlater
  refine ⟨others ++ shapes, by rw [hbuilt, List.append_assoc], ?_⟩
  rw [hothers, hevents, hshapes, List.reverse_append, Shape.eventsOf_append, List.append_assoc]

/-- Within a trial a diagnostic stands for a report as well as in a trial of its own. -/
theorem Base.Reported.trans {inner : Base} {stream : Stream}
    {diagnostics later : Array Diagnostic} {reports more : List Report}
    (hreported : base.Reported stream diagnostics reports)
    (hlater : inner.Reported stream later more) (hlimit : inner.limit ≤ base.limit)
    (hdiagnostics : inner.diagnostics = diagnostics.toList) (hreports : inner.reports = [])
    (hquiet : more = [] ∨ 0 < base.trials) :
    base.Reported stream later (more ++ reports) := by
  obtain ⟨told, others, rfl, hothers, hall⟩ := hreported
  obtain ⟨more, newer, rfl, hnewer, hrest⟩ := hlater
  rw [hreports, List.append_nil] at hquiet ⊢
  -- What is kept of a trial in earnest has no reports, and elsewhere only their places count.
  have hnow : List.Forall₂ (Told stream base.trials base.limit) newer more.reverse := by
    rcases hquiet with rfl | htrial
    · cases hrest
      exact .nil
    · refine hrest.imp fun _ _ htold =>
        ⟨Nat.le_trans htold.position_le hlimit, htold.index, fun hactual => ?_⟩
      exact absurd hactual (Nat.ne_of_gt htrial)
  refine ⟨more ++ told, others ++ newer, (List.append_assoc ..).symm, ?_, ?_⟩
  · rw [hnewer, hdiagnostics, hothers, List.append_assoc]
  · rw [List.reverse_append]
    exact List.rel_append hall hnow

theorem trials_pos_of_modeOf {trials : Nat} (hmode : (modeOf trials == .trial) = true) :
    0 < trials := by
  cases trials with
  | zero => cases hmode
  | succ trials => exact Nat.succ_pos trials

def Base.trial (session : Session) (state : State) (other : Parse.State) : Base where
  trials := state.trials + 1
  limit := Parse.windowEnd session.words other
  events := state.events.toList
  diagnostics := state.diagnostics.toList
  built := other.built
  reports := []

section

variable {outcome : State} {gist : Parse.State}
  (houtcome : Mirrors session (.trial session state other) outcome gist)

include houtcome

theorem events_prefix_trial : state.events.toList <+: outcome.events.toList := by
  obtain ⟨shapes, -, hevents⟩ := houtcome.written
  exact ⟨_, hevents.symm⟩

theorem diagnostics_prefix_trial : state.diagnostics.toList <+: outcome.diagnostics.toList := by
  obtain ⟨more, others, -, hdiagnostics, -⟩ := houtcome.reported
  exact ⟨_, hdiagnostics.symm⟩

/-- Rewinding puts back everything but the horizon and whether something was seen beyond it. -/
theorem rewind_trial : outcome.rewind state.checkpoint =
    { state with
      trials := state.trials + 1, horizon := outcome.horizon, touched := outcome.touched } := by
  simp only [State.rewind, State.checkpoint, houtcome.trials, Base.trial,
    shrink_of_isPrefix (events_prefix_trial houtcome),
    shrink_of_isPrefix (diagnostics_prefix_trial houtcome)]

theorem ranked_trial (hmirrors : Mirrors session base state other) :
    Ranked session.tape.words (Parse.windowEnd session.words other) other.position
      (outcome.rank state.checkpoint) (Parse.rank other gist) := by
  obtain ⟨more, others, hreports, hdiagnostics, htold⟩ := houtcome.reported
  have hfound : outcome.diagnostics[state.diagnostics.size]? = others.head? := by
    rw [← Array.getElem?_toList, hdiagnostics, ← Array.length_toList, Base.trial,
      List.getElem?_append_right (Nat.le_refl _), Nat.sub_self, List.head?_eq_getElem?]
  have hgist : gist.reports.getLast? = more.reverse.head? := by
    rw [hreports, Base.trial, List.append_nil, List.head?_reverse]
  generalize more.reverse = reports at htold hgist
  simp only [State.rank, Parse.rank, State.checkpoint, hfound, hgist]
  cases htold with
  | nil =>
      refine ⟨⟨gist.position, houtcome.position_le_limit, ?_, rfl⟩, rfl⟩
      simp only [List.head?_nil, houtcome.index, hmirrors.index]
  | cons hfirst hrest =>
      refine ⟨⟨_, hfirst.position_le, ?_, rfl⟩, rfl⟩
      simp only [List.head?_cons, hfirst.index, hmirrors.index]

theorem reusable_trial (hmirrors : Mirrors session base state other) :
    (session.reuse && ((!outcome.touched && (outcome.rank state.checkpoint).errorFree)
        || (1 < outcome.trials && windowEnd session state == state.horizon))) =
      Parse.isReusable session.words (modeOf base.trials) other gist := by
  have hfree : (outcome.rank state.checkpoint).errorFree = gist.reports.isEmpty := by
    rw [(ranked_trial houtcome hmirrors).errorFree, Parse.errorFree_rank]
  have hwhole : (windowEnd session state == state.horizon) =
      (Parse.windowEnd session.words other == other.horizon) := by
    rw [hmirrors.windowEnd, hmirrors.horizon, Bool.eq_iff_iff, beq_iff_eq, beq_iff_eq]
    exact Stream.indexOf_inj hmirrors.windowEnd_le_size hmirrors.horizon_le_size
  have hnested : decide (1 < outcome.trials) = (modeOf base.trials == .trial) := by
    rw [houtcome.trials, Base.trial, hmirrors.trials]
    cases base.trials <;> rfl
  rw [hfree, hwhole, hnested, houtcome.touched]
  rfl

theorem resume_trial (hmirrors : Mirrors session base state other) {touched : Bool}
    (hreusable : Parse.isReusable session.words (modeOf base.trials) other gist = true) :
    Mirrors session base
      ((outcome.stash state.checkpoint (windowEnd session state)).resume { state with touched })
      (Parse.resume session.words other gist touched) := by
  have hwindow : Parse.windowEnd session.words other ≤ other.horizon := Parse.windowEnd_le other
  have hgist : gist.horizon ≤ Parse.windowEnd session.words other := houtcome.horizon_le
  have hshorter : outcome.horizon < session.tape.words.indexOf (Parse.windowEnd session.words other)
      ↔ gist.horizon < Parse.windowEnd session.words other := by
    rw [houtcome.horizon, Stream.indexOf_lt_iff hmirrors.windowEnd_le_size]
  have hposition := houtcome.position_le
  simp only [Stash.resume, State.stash, State.checkpoint, hmirrors.windowEnd, hshorter,
    append_extract_of_isPrefix (events_prefix_trial houtcome),
    append_extract_of_isPrefix (diagnostics_prefix_trial houtcome)]
  exact {
    index := houtcome.index
    horizon := by
      simp only [Parse.resume]
      split
      · exact houtcome.horizon
      · exact hmirrors.horizon
    position_le := by
      simp only [Parse.resume]
      split <;> omega
    horizon_le := by
      have hlimit := hmirrors.horizon_le
      simp only [Parse.resume]
      split <;> omega
    limit_le := hmirrors.limit_le
    touched := rfl
    trials := hmirrors.trials
    written := hmirrors.written.trans houtcome.written rfl rfl
    reported := hmirrors.reported.trans houtcome.reported
      (Nat.le_trans hwindow hmirrors.horizon_le) rfl rfl (by
      rw [Parse.isReusable, Bool.and_eq_true, Bool.or_eq_true, Bool.and_eq_true, Bool.and_eq_true,
        List.isEmpty_iff] at hreusable
      exact hreusable.2.imp And.right fun hnested => trials_pos_of_modeOf hnested.1)
    last := houtcome.last
    behind := houtcome.behind }

end

/-! ## All trials -/

def trial (enter : Enter) (session : Session) (recovery : Lookahead) (state : State) (part : Part) :
    State :=
  element enter session part recovery
    { state with
      trials := state.trials + 1, horizon := windowEnd session state, touched := false }

/-- After some trials everything is back in place, and the best one so far is the same. -/
structure Tried (enter : Enter) (words : Parse.Enter) (session : Session) (recovery : Lookahead)
    (state : State) (other : Parse.State) (trials : Trials) (best : Part × Parse.State)
    (touched : Bool) : Prop where
  restored : ∃ horizon seen, trials.state =
    { state with trials := state.trials + 1, horizon := horizon, touched := seen }
  attempt : best.2 = Parse.attempt words session.words recovery other best.1
  best : trials.best = some (.of session state.checkpoint (windowEnd session state) state.horizon
    best.1 (trial enter session recovery state best.1))
  touched : trials.touched = touched

section

variable (henter : Follows session enter words) (hmirrors : Mirrors session base state other)
  (recovery : Lookahead)

include henter hmirrors

theorem mirrors_trial (part : Part) :
    Mirrors session (.trial session state other) (trial enter session recovery state part)
      (Parse.attempt words session.words recovery other part) := by
  refine @Follows.element session enter words (.trial session state other) _ _ henter part
    recovery ?_
  exact {
    index := hmirrors.index
    horizon := hmirrors.windowEnd
    position_le := hmirrors.position_le_windowEnd
    horizon_le := Nat.le_refl _
    limit_le := hmirrors.windowEnd_le_size
    touched := rfl
    trials := rfl
    written := ⟨[], rfl, (List.append_nil _).symm⟩
    reported := ⟨[], [], rfl, (List.append_nil _).symm, .nil⟩
    last := hmirrors.last
    behind := hmirrors.behind }

theorem Tried.first (part : Part) :
    let gist := Parse.attempt words session.words recovery other part
    Tried enter words session recovery state other
      (Trials.attempt enter session recovery state.checkpoint (windowEnd session state)
        state.horizon ⟨{ state with trials := state.trials + 1 }, none, false⟩ part)
      (part, gist) gist.touched := by
  have houtcome := mirrors_trial henter hmirrors recovery part
  refine ⟨⟨_, _, rewind_trial houtcome⟩, rfl, rfl, ?_⟩
  rw [Trials.attempt, Bool.false_or]
  exact houtcome.touched

theorem Tried.next {trials : Trials} {best : Part × Parse.State} {touched : Bool}
    (htried : Tried enter words session recovery state other trials best touched) (part : Part) :
    let gist := Parse.attempt words session.words recovery other part
    Tried enter words session recovery state other
      (trials.attempt enter session recovery state.checkpoint (windowEnd session state)
        state.horizon part)
      (if (Parse.rank other best.2).lt (Parse.rank other gist) then (part, gist) else best)
      (touched || gist.touched) := by
  obtain ⟨⟨horizon, seen, hstate⟩, hattempt, hbest, rfl⟩ := htried
  have houtcome := mirrors_trial henter hmirrors recovery part
  have hranks := (ranked_trial (mirrors_trial henter hmirrors recovery best.1) hmirrors).lt
    houtcome.limit_le (ranked_trial houtcome hmirrors)
  rw [← hattempt] at hranks
  simp only [Trials.attempt, hstate, hbest, Option.all_some]
  change Tried enter words session recovery state other ⟨_, if (State.rank state.checkpoint
    (trial enter session recovery state best.1)).lt (State.rank state.checkpoint
      (trial enter session recovery state part)) then _ else _, _⟩ _ _
  rw [hranks]
  refine ⟨⟨_, _, rewind_trial houtcome⟩, ?_, ?_, congrArg (trials.touched || ·) houtcome.touched⟩
  · split
    · rfl
    · exact hattempt
  · split
    · rfl
    · rfl

theorem Tried.foldl {trials : Trials} {best : Part × Parse.State} {touched : Bool}
    (htried : Tried enter words session recovery state other trials best touched)
    (parts : List Part) :
    let others := parts.map fun part =>
      (part, Parse.attempt words session.words recovery other part)
    Tried enter words session recovery state other
      (parts.foldl (Trials.attempt enter session recovery state.checkpoint
        (windowEnd session state) state.horizon) trials)
      (Parse.best other best others) (touched || others.any (·.2.touched)) := by
  induction parts generalizing trials best touched with
  | nil => simpa only [List.foldl_nil, List.map_nil, Parse.best, List.any_nil, Bool.or_false]
  | cons part rest ih =>
      have hrest := ih (htried.next henter hmirrors recovery part)
      simpa only [List.foldl_cons, List.map_cons, Parse.best, List.any_cons, Bool.or_assoc]
        using hrest

theorem Tried.settle {trials : Trials} {best : Part × Parse.State} {touched : Bool}
    (htried : Tried enter words session recovery state other trials best touched) :
    Mirrors session base (trials.settle enter session recovery state)
      (if Parse.isReusable session.words (modeOf base.trials) other best.2 then
        Parse.resume session.words other best.2 (other.touched || touched)
      else
        Parse.element words (modeOf base.trials) best.1 recovery
          { other with touched := other.touched || touched }) := by
  obtain ⟨⟨horizon, seen, hstate⟩, hattempt, hbest, rfl⟩ := htried
  have houtcome := mirrors_trial henter hmirrors recovery best.1
  rw [← hattempt] at houtcome
  simp only [Trials.settle, hstate, hbest, Best.of, reusable_trial houtcome hmirrors,
    Nat.add_sub_cancel, ← hmirrors.touched]
  by_cases hreusable : Parse.isReusable session.words (modeOf base.trials) other best.2 = true
  · rw [if_pos hreusable, if_pos hreusable]
    exact resume_trial houtcome hmirrors hreusable
  · rw [if_neg hreusable, if_neg hreusable]
    exact henter.element best.1 recovery { hmirrors with touched := rfl }

theorem tried_tryAll (first : Part) (rest : List Part) :
    let gist := Parse.attempt words session.words recovery other first
    let others := rest.map fun part => (part, Parse.attempt words session.words recovery other part)
    Tried enter words session recovery state other
      (tryAll enter session (first :: rest) recovery state)
      (Parse.best other (first, gist) others)
      (((first, gist) :: others).any (·.2.touched)) :=
  (Tried.first henter hmirrors recovery first).foldl henter hmirrors recovery rest

theorem mirrors_speculate (candidates : List Part) :
    Mirrors session base (speculate enter session candidates recovery state)
      (Parse.speculate words session.words (modeOf base.trials) candidates recovery other) := by
  cases candidates with
  | nil =>
      simpa only [speculate, tryAll, Trials.settle, Parse.speculate, List.foldl_nil, List.map_nil,
        Bool.or_false, Nat.add_sub_cancel] using hmirrors
  | cons first rest =>
      exact (tried_tryAll henter hmirrors recovery first rest).settle henter hmirrors recovery

end

end Descent

end LosslessTree
