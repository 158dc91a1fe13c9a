import LosslessTree.Proofs.Words.Basic
import LosslessTree.Proofs.Parse.Stream
import LosslessTree.Proofs.Parse.Window

/-!
The outcome of a trial stands for the real thing only where that comes out the same. A session that
always parses the winner again therefore ends in the same state.
-/

namespace LosslessTree

namespace Parse

open Grammar

def Session.afresh (session : Session) : Session := { session with reuse := false }

theorem Session.stream_afresh (session : Session) : session.afresh.stream = session.stream := rfl

theorem Session.window_pos (grammar : Grammar) (settings : Settings) (tokens : List Token) :
    0 < (Session.of grammar settings tokens).window :=
  Nat.lt_of_lt_of_le Nat.zero_lt_one (Nat.le_max_right _ _)

variable {session : Session}

theorem windowEnd_le (state : State) : windowEnd session state ≤ state.horizon :=
  Nat.min_le_right _ _

/-- The state before some trials, as the winner would find it were nothing known of them. -/
def State.unmarked (state : State) : State := { state with touched := false, reports := [] }

theorem State.onto_unmarked (state : State) (touched : Bool) :
    state.unmarked.onto touched state.reports = { state with touched } := by
  simp [State.unmarked, State.onto]

theorem State.nearer_onTrial {state : State} (hbound : state.horizon ≤ session.stream.size) :
    Nearer session (state.onTrial session) state.unmarked :=
  ⟨state.horizon, rfl, windowEnd_le state, hbound⟩

theorem State.sameView_onTrial (hwindow : 0 < session.window) {state : State}
    (hbound : state.horizon ≤ session.stream.size) :
    SameView session session (state.onTrial session) state.unmarked := by
  have hahead : state.position < windowEnd session state ↔ state.position < state.horizon := by
    simp only [windowEnd]
    omega
  refine .of_current hahead ?_
  simp only [State.onTrial, State.unmarked, State.current, hahead]
  rfl

section

variable (hfinal : session.stream.final.kind = .eof) (hreuse : session.reuse = false)
  {levels : Nat} {part : Part} (hpart : part ∈ session.grammar.parts) {recovery : Lookahead}
  {state : State}

include hfinal hreuse hpart

/-- Where a trial saw nothing beyond its window and reported nothing, the real thing ends in the
same state, but with the horizon from before. -/
theorem element_of_untouched (hwindow : 0 < session.window) (mode : Mode)
    (hbound : state.horizon ≤ session.stream.size)
    (htouched : (attempt (node session levels) session recovery state part).touched = false)
    (hreports : (attempt (node session levels) session recovery state part).reports = []) :
    (attempt (node session levels) session recovery state part).horizon =
        windowEnd session state ∧
      element (node session levels) mode part recovery state.unmarked =
        { attempt (node session levels) session recovery state part with
          horizon := state.horizon } := by
  have hstep : Lockstep session session .trial mode _ _ := lockstep_window
  have hunreported (mode : Mode) (state : State) :=
    (respected_unreported session mode).element
      ((respected_unreported session mode).node hfinal hreuse levels) hpart recovery state
  have hstayed :
      ¬Strayed mode (attempt (node session levels) session recovery state part) := by
    simp [Strayed, htouched, hreports]
  obtain ⟨horizon, hreal, -, -⟩ := (hstep.element
    (fun _ recovery _ _ => node_window hreuse hfinal hwindow mode levels _ recovery)
    hpart recovery (State.nearer_onTrial hbound)
    (State.sameView_onTrial hwindow hbound)).resolve_left hstayed
  obtain ⟨-, htrialEnd⟩ := hunreported .trial (state.onTrial session) hreports
  have hrealEnd := hunreported mode state.unmarked
  rw [hreal] at hrealEnd ⊢
  obtain ⟨-, rfl⟩ := hrealEnd hreports
  exact ⟨htrialEnd, rfl⟩

/-- Where the window is as wide as what may be seen, a trial is the same as another one. -/
theorem element_of_whole (hwhole : windowEnd session state = state.horizon) :
    (attempt (node session levels) session recovery state part).horizon ≤ state.horizon ∧
      element (node session levels) .trial part recovery state.unmarked =
        attempt (node session levels) session recovery state part := by
  have hstart : state.onTrial session = state.unmarked := by
    simp only [State.onTrial, State.unmarked, hwhole]
  refine ⟨?_, by rw [← hstart]; rfl⟩
  have hhorizon := respected_horizon session .trial
  have hle := hhorizon.element (hhorizon.node hfinal hreuse levels) hpart recovery
    (state.onTrial session)
  rw [← hwhole]
  exact hle

/-- Going on from a trial that may stand for the real thing is parsing its part. -/
theorem resume_eq_element (hwindow : 0 < session.window) {mode : Mode}
    (hbound : state.horizon ≤ session.stream.size) {outcome : State}
    (houtcome : outcome = attempt (node session levels) session recovery state part)
    (hreusable : (!outcome.touched && outcome.reports.isEmpty ||
      (mode == .trial && windowEnd session state == state.horizon)) = true)
    {touched : Bool} (htouched : outcome.touched = true → touched = true) :
    resume session state outcome touched =
      element (node session levels) mode part recovery { state with touched } := by
  rw [← State.onto_unmarked, element_onto (node_onto hreuse hfinal levels)]
  simp only [Bool.or_eq_true, Bool.and_eq_true, Bool.not_eq_true', List.isEmpty_iff,
    beq_iff_eq] at hreusable
  -- Either nothing was seen or reported that could differ, or this is a trial within a trial.
  rcases hreusable with ⟨huntouched, hunreported⟩ | ⟨rfl, hwhole⟩
  · rw [houtcome] at huntouched hunreported
    obtain ⟨hend, hreal⟩ :=
      element_of_untouched hfinal hreuse hpart hwindow mode hbound huntouched hunreported
    rw [hreal, ← houtcome]
    rw [← houtcome] at hend huntouched
    simp only [resume, State.onto, hend, huntouched, Nat.lt_irrefl, if_false, Bool.or_false]
  · obtain ⟨hle, hreal⟩ := element_of_whole hfinal hreuse hpart hwhole
    rw [hreal, ← houtcome]
    rw [← houtcome] at hle
    have hend : (if outcome.horizon < windowEnd session state then outcome.horizon
        else state.horizon) = outcome.horizon := by
      rw [hwhole]
      split <;> omega
    have hmark : (touched || outcome.touched) = touched := by
      cases hcase : outcome.touched with
      | true => rw [htouched hcase, Bool.true_or]
      | false => rw [Bool.or_false]
    simp only [resume, State.onto, hend, hmark]

end

theorem element_congr {enter other : Enter} {mode : Mode} {state : State}
    (henter : ∀ kind recovery, enter mode kind recovery state = other mode kind recovery state)
    (part : Part) (recovery : Lookahead) :
    element enter mode part recovery state = element other mode part recovery state := by
  unfold element
  split
  · rfl
  · rfl
  · exact henter _ recovery

theorem speculate_eq_afresh (hfinal : session.stream.final.kind = .eof)
    (hwindow : 0 < session.window) {levels : Nat}
    (henter : ∀ mode kind recovery {state : State}, state.horizon ≤ session.stream.size →
      node session levels mode kind recovery state =
        node session.afresh levels mode kind recovery state)
    (mode : Mode) {candidates : List Part}
    (hparts : ∀ part ∈ candidates, part ∈ session.grammar.parts) (recovery : Lookahead)
    {state : State} (hbound : state.horizon ≤ session.stream.size) :
    speculate (node session levels) session mode candidates recovery state =
      speculate (node session.afresh levels) session.afresh mode candidates recovery state := by
  let trial (part : Part) := attempt (node session.afresh levels) session.afresh recovery state part
  have htrial (part : Part) :
      attempt (node session levels) session recovery state part = trial part :=
    element_congr (fun kind recovery => henter .trial kind recovery
      (Nat.le_trans (windowEnd_le state) hbound)) part recovery
  cases candidates with
  | nil => rfl
  | cons first others =>
      obtain ⟨part, hpart, hbest, -⟩ := best_parallel first others fun part _ =>
        Eq.refl (rank state (trial part))
      have hany : ((first, trial first) :: others.map fun part => (part, trial part)).any
          (·.2.touched) = (first :: others).any fun part => (trial part).touched := by
        simp only [List.any_cons, List.any_map]
        rfl
      have hmarked : (trial part).touched = true →
          (state.touched || (first :: others).any fun part => (trial part).touched) = true := by
        intro htouched
        rw [List.any_eq_true.mpr ⟨part, hpart, htouched⟩, Bool.or_true]
      rw [speculate_eq_element (show session.afresh.reuse = false from rfl), hbest]
      simp only [speculate, htrial, List.map_cons, hbest, hany]
      split
      · next hreusable =>
          exact resume_eq_element (show session.afresh.stream.final.kind = .eof from hfinal) rfl
            (hparts part hpart) hwindow hbound rfl (Bool.and_eq_true_iff.mp hreusable).2 hmarked
      · exact element_congr (fun kind recovery => henter mode kind recovery (by exact hbound))
          part recovery

section

variable (hfinal : session.stream.final.kind = .eof) (hwindow : 0 < session.window) {levels : Nat}
  (henter : ∀ mode kind recovery {state : State}, state.horizon ≤ session.stream.size →
    node session levels mode kind recovery state =
      node session.afresh levels mode kind recovery state)

include hfinal henter

theorem node_lockstep_afresh (mode : Mode) {kind : NodeKind}
    (hkind : session.afresh.grammar.Mentions kind) (recovery : Lookahead) {state other : State}
    (hstate : other = state ∧ state.horizon ≤ session.stream.size) :
    node session levels mode kind recovery other =
        node session.afresh levels mode kind recovery state ∧
      (node session.afresh levels mode kind recovery state).horizon ≤ session.stream.size := by
  obtain ⟨rfl, hbound⟩ := hstate
  have hhorizon := (respected_horizon session.afresh mode).node hfinal rfl levels hkind recovery
  exact ⟨henter mode kind recovery hbound, Nat.le_trans (hhorizon _) hbound⟩

include hwindow

theorem speculate_lockstep_afresh (mode : Mode) {candidates : List Part}
    (hcandidates : candidates ≠ [])
    (hparts : ∀ part ∈ candidates, part ∈ session.afresh.grammar.parts) (recovery : Lookahead)
    {state other : State} (hstate : other = state ∧ state.horizon ≤ session.stream.size) :
    speculate (node session levels) session mode candidates recovery other =
        speculate (node session.afresh levels) session.afresh mode candidates recovery state ∧
      (speculate (node session.afresh levels) session.afresh mode candidates recovery
        state).horizon ≤ session.stream.size := by
  obtain ⟨rfl, hbound⟩ := hstate
  have hhorizon := respected_horizon session.afresh mode
  have hnode {kind : NodeKind} (hkind : session.afresh.grammar.Mentions kind) :=
    hhorizon.node hfinal rfl levels hkind
  refine ⟨speculate_eq_afresh hfinal hwindow henter mode hparts recovery hbound, ?_⟩
  exact Nat.le_trans (hhorizon.speculate rfl hnode hcandidates hparts recovery _) hbound

theorem body_afresh (mode : Mode) (kind : NodeKind) (recovery : Lookahead) {state : State}
    (hbound : state.horizon ≤ session.stream.size) :
    body (node session levels) session mode kind recovery state =
      body (node session.afresh levels) session.afresh mode kind recovery state := by
  have hstep : Lockstep session.afresh session mode mode _ _ :=
    lockstep_eq session.stream_afresh mode
  have hbody := hstep.body hfinal rfl (fun _ _ _ => id)
    (fun hkind recovery _ _ hstate =>
      .inr (node_lockstep_afresh hfinal henter mode hkind recovery hstate))
    (fun hcandidates hparts recovery _ _ hstate _ => .inr
      (speculate_lockstep_afresh hfinal hwindow henter mode hcandidates hparts recovery hstate))
    (hstep.sharedRounds rfl) (show _ = session.grammar.production? kind from rfl) recovery
    ⟨rfl, hbound⟩
  exact (hbody.resolve_left id).1

theorem once_afresh (mode : Mode) {place : Place}
    (hparts : ∀ part ∈ place.parts, part ∈ session.grammar.parts) (follow : Lookahead)
    {state : State} (hbound : state.horizon ≤ session.stream.size) :
    once (node session levels) session mode place follow state =
      once (node session.afresh levels) session.afresh mode place follow state := by
  have hstep : Lockstep session.afresh session mode mode _ _ :=
    lockstep_eq session.stream_afresh mode
  have honce := hstep.once hfinal rfl (fun _ _ _ => id)
    (fun hkind recovery _ _ hstate =>
      .inr (node_lockstep_afresh hfinal henter mode hkind recovery hstate))
    (fun hcandidates hparts recovery _ _ hstate _ => .inr
      (speculate_lockstep_afresh hfinal hwindow henter mode hcandidates hparts recovery hstate))
    hparts follow ⟨rfl, hbound⟩
  exact (honce.resolve_left id).1

end

theorem node_eq_afresh (hfinal : session.stream.final.kind = .eof) (hwindow : 0 < session.window)
    (levels : Nat) (mode : Mode) (kind : NodeKind) (recovery : Lookahead) {state : State}
    (hbound : state.horizon ≤ session.stream.size) :
    node session levels mode kind recovery state =
      node session.afresh levels mode kind recovery state := by
  induction levels generalizing mode kind recovery state with
  | zero =>
      have hstep : Lockstep session.afresh session mode mode _ _ :=
        lockstep_eq session.stream_afresh mode
      have hcut := hstep.cut hfinal (hstep.inside ⟨rfl, hbound⟩)
      exact ((hstep.nest ⟨rfl, hbound⟩ kind hcut).resolve_left id).1
  | succ levels ih =>
      have hbody := body_afresh hfinal hwindow ih mode kind recovery
        (show { state with built := [] }.horizon ≤ session.stream.size from hbound)
      simp only [node, State.nest, hbody]

theorem run_afresh (hfinal : session.stream.final.kind = .eof) (hwindow : 0 < session.window)
    (start : NodeKind) : run session.afresh start = run session start := by
  have hbody := body_afresh hfinal hwindow
    (fun mode kind recovery _ => node_eq_afresh hfinal hwindow depthLimit mode kind recovery)
    .actual start (.ofKind .eof)
    (show (State.initial session).horizon ≤ session.stream.size from Nat.le_refl _)
  exact run_congr session.stream_afresh hbody.symm

end Parse

end LosslessTree
