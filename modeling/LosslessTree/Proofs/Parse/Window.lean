import LosslessTree.Proofs.Parse.Lockstep

/-!
What parsing depends on. Marks and reports from before are only carried along (`node_onto`). A
trial with a nearer horizon goes the way of a parse with a farther one until something beyond the
nearer horizon is looked at; actual parsing moreover parts from a trial at its first report
(`element_window`).
-/

namespace LosslessTree

namespace Parse

open Grammar

variable {session : Session} {mode : Mode}

/-! ## Earlier marks and reports -/

/-- The state with marks and reports from before put below its own. -/
def State.onto (touched : Bool) (reports : List Report) (state : State) : State :=
  { state with touched := touched || state.touched, reports := state.reports ++ reports }

variable {touched : Bool} {reports : List Report}

theorem State.bump_onto (state : State) :
    (state.onto touched reports).bump = state.bump.onto touched reports := by
  by_cases hahead : state.position < state.horizon
  · rw [State.bump_of_ahead hahead, State.bump_of_ahead (by exact hahead)]
    rfl
  · rw [State.bump_of_behind hahead, State.bump_of_behind (by exact hahead)]

theorem State.skip_onto (stop : Lookahead) (complaint : Complaint) (state : State) :
    (state.onto touched reports).skip session mode stop complaint =
      (state.skip session mode stop complaint).onto touched reports := by
  cases mode <;> rfl

theorem State.missing_onto (expected : Lookahead) (what : String) (state : State) :
    (state.onto touched reports).missing mode expected what =
      (state.missing mode expected what).onto touched reports := by
  by_cases hlast : state.lastReport = some state.position
  · rw [State.missing_of_reported hlast, State.missing_of_reported (by exact hlast)]
  · rw [State.missing_of_unreported hlast, State.missing_of_unreported (by exact hlast)]
    cases mode <;> rfl

theorem lockstep_onto : Lockstep session session mode mode (fun _ => False)
    (fun state other => other = state.onto touched reports) where
  lost := respected_false
  lost_built _ := id
  position := by
    rintro state _ rfl
    rfl
  look := by
    rintro state _ rfl
    refine .inr ⟨?_, .of_current ?_ ?_⟩
    · simp only [State.look_eq, State.onto, Bool.or_assoc]
    · simp only [State.look_eq, State.onto]
    · simp only [State.current_look]
      rfl
  bump := by
    rintro state _ rfl -
    exact State.bump_onto state
  skip := by
    rintro state _ stop complaint rfl -
    exact .inr (State.skip_onto stop complaint state)
  missing := by
    rintro state _ expected what rfl
    exact .inr (State.missing_onto expected what state)
  inside := by
    rintro state _ rfl
    rfl
  outside := by
    rintro state _ inner _ kind rfl rfl
    rfl

theorem element_onto {enter : Enter}
    (henter : ∀ kind recovery (state : State),
      enter mode kind recovery (state.onto touched reports) =
        (enter mode kind recovery state).onto touched reports)
    (part : Part) (recovery : Lookahead) (state : State) :
    element enter mode part recovery (state.onto touched reports) =
      (element enter mode part recovery state).onto touched reports := by
  unfold element
  split
  · exact State.bump_onto state
  · exact State.bump_onto state
  · exact henter _ recovery state

theorem speculate_onto (hreuse : session.reuse = false) {enter : Enter}
    (henter : ∀ kind recovery (state : State),
      enter mode kind recovery (state.onto touched reports) =
        (enter mode kind recovery state).onto touched reports)
    (candidates : List Part) (recovery : Lookahead) (state : State) :
    speculate enter session mode candidates recovery (state.onto touched reports) =
      (speculate enter session mode candidates recovery state).onto touched reports := by
  have hattempt (part : Part) :
      attempt enter session recovery (state.onto touched reports) part =
        attempt enter session recovery state part := rfl
  cases candidates with
  | nil => rfl
  | cons first others =>
      simp only [speculate, hattempt, isReusable, hreuse, Bool.false_and, Bool.false_eq_true,
        if_false, List.map_cons]
      rw [← element_onto henter]
      simp only [State.onto, Bool.or_assoc]
      rfl

theorem node_onto (hreuse : session.reuse = false) (hfinal : session.stream.final.kind = .eof)
    (levels : Nat) (kind : NodeKind) (recovery : Lookahead) (state : State) :
    node session levels mode kind recovery (state.onto touched reports) =
      (node session levels mode kind recovery state).onto touched reports := by
  have hstep : Lockstep session session mode mode (fun _ => False)
    (fun state other => other = state.onto touched reports) := lockstep_onto
  induction levels generalizing kind recovery state with
  | zero =>
      have hcut := hstep.cut hfinal (hstep.inside (rfl : state.onto touched reports = _))
      exact (hstep.nest rfl kind hcut).resolve_left id
  | succ levels ih =>
      have hbody := hstep.body hfinal hreuse (fun _ _ _ => id)
        (fun _ recovery state other heq => .inr (heq ▸ ih _ recovery state))
        (fun _ _ recovery state other heq _ =>
          .inr (heq ▸ speculate_onto hreuse (fun kind recovery => ih kind recovery) _ recovery
            state))
        (hstep.sharedRounds rfl) (show _ = session.grammar.production? kind from rfl) recovery
        (hstep.inside (rfl : state.onto touched reports = _))
      exact (hstep.nest rfl kind hbody).resolve_left id

/-! ## Nearer and farther horizons -/

def Nearer (session : Session) (state other : State) : Prop :=
  ∃ horizon, other = { state with horizon } ∧ state.horizon ≤ horizon ∧
    horizon ≤ session.stream.size

/-- A trial says nothing about parsing in a mode once it has looked beyond its horizon, and about
actual parsing once it has made a report. -/
def Strayed (mode : Mode) (state : State) : Prop :=
  state.touched = true ∨ (mode = .actual ∧ state.reports ≠ [])

theorem Strayed.of_reports {mode : Mode} {before after : State} (hstrayed : Strayed mode before)
    (htouched : before.touched = true → after.touched = true)
    (hreports : before.reports ≠ [] → after.reports ≠ []) : Strayed mode after :=
  hstrayed.imp htouched (And.imp_right hreports)

theorem respected_strayed (session : Session) (mode : Mode) :
    Respected session .trial fun before after => Strayed mode before → Strayed mode after where
  refl _ := id
  trans hfirst hsecond := hsecond ∘ hfirst
  touch state touched hstrayed := hstrayed.of_reports (by simp_all) id
  bump state hahead hstrayed := by
    rw [State.bump_of_ahead hahead]
    exact hstrayed
  skip state stop complaint hahead hstrayed :=
    hstrayed.of_reports id (fun _ => List.cons_ne_nil _ _)
  missing state expected what hstrayed := by
    by_cases hlast : state.lastReport = some state.position
    · rwa [State.missing_of_reported hlast]
    · rw [State.missing_of_unreported hlast]
      exact hstrayed.of_reports id (fun _ => List.cons_ne_nil _ _)
  nest state inner kind _ hinner := hinner

theorem lockstep_window : Lockstep session session .trial mode (Strayed mode)
    (Nearer session) where
  lost := respected_strayed session mode
  lost_built _ := id
  position := by
    rintro state _ ⟨horizon, rfl, -, -⟩
    rfl
  look := by
    rintro state _ ⟨horizon, rfl, hle, hsize⟩
    by_cases hbeyond : state.horizon ≤ state.position ∧ state.horizon < session.stream.size
    · left
      rw [State.look, if_pos hbeyond]
      exact .inl rfl
    · right
      have hother : ¬(horizon ≤ state.position ∧ horizon < session.stream.size) := by omega
      have hahead : state.position < state.horizon ↔ state.position < horizon := by omega
      rw [State.look, State.look, if_neg hbeyond, if_neg (by exact hother)]
      refine ⟨⟨horizon, rfl, hle, hsize⟩, .of_current hahead ?_⟩
      simp only [State.current, hahead]
  bump := by
    rintro state _ ⟨horizon, rfl, hle, hsize⟩ ⟨hview, -, -⟩
    by_cases hahead : state.position < state.horizon
    · rw [State.bump_of_ahead hahead, State.bump_of_ahead (hview.mp hahead)]
      exact ⟨horizon, rfl, hle, hsize⟩
    · rw [State.bump_of_behind hahead, State.bump_of_behind (mt hview.mpr hahead)]
      exact ⟨horizon, rfl, hle, hsize⟩
  skip := by
    rintro state _ stop complaint ⟨horizon, rfl, hle, hsize⟩ -
    cases mode with
    | actual => exact .inl (.inr ⟨rfl, List.cons_ne_nil _ _⟩)
    | trial =>
        right
        refine ⟨min horizon state.position, rfl, ?_, by omega⟩
        change min state.horizon state.position ≤ min horizon state.position
        omega
  missing := by
    rintro state _ expected what ⟨horizon, rfl, hle, hsize⟩
    by_cases hlast : state.lastReport = some state.position
    · rw [State.missing_of_reported hlast, State.missing_of_reported (by exact hlast)]
      exact .inr ⟨horizon, rfl, hle, hsize⟩
    · rw [State.missing_of_unreported hlast, State.missing_of_unreported (by exact hlast)]
      cases mode with
      | actual => exact .inl (.inr ⟨rfl, List.cons_ne_nil _ _⟩)
      | trial =>
          right
          refine ⟨min horizon state.position, rfl, ?_, by omega⟩
          change min state.horizon state.position ≤ min horizon state.position
          omega
  inside := by
    rintro state _ ⟨horizon, rfl, hle, hsize⟩
    exact ⟨horizon, rfl, hle, hsize⟩
  outside := by
    rintro state _ inner _ kind ⟨horizon, rfl, -, -⟩ ⟨innerHorizon, rfl, hle, hsize⟩
    exact ⟨innerHorizon, rfl, hle, hsize⟩

def State.onTrial (session : Session) (state : State) : State :=
  { state with horizon := windowEnd session state, touched := false, reports := [] }

theorem Nearer.touched_eq {state other : State} (hnear : Nearer session state other) :
    other.touched = state.touched := by
  obtain ⟨horizon, rfl, -, -⟩ := hnear
  rfl

theorem Nearer.rank_eq {state other outcome otherOutcome : State}
    (hnear : Nearer session state other) (houtcome : Nearer session outcome otherOutcome) :
    rank state outcome = rank other otherOutcome := by
  obtain ⟨horizon, rfl, -, -⟩ := hnear
  obtain ⟨outcomeHorizon, rfl, -, -⟩ := houtcome
  rfl

theorem Nearer.onTrial {state other : State} (hnear : Nearer session state other) :
    Nearer session (state.onTrial session) (other.onTrial session) := by
  obtain ⟨horizon, rfl, hle, hsize⟩ := hnear
  refine ⟨windowEnd session { state with horizon }, rfl, ?_, ?_⟩ <;>
    simp only [State.onTrial, windowEnd] <;> omega

theorem Nearer.sameView_onTrial (hwindow : 0 < session.window) {state other : State}
    (hnear : Nearer session state other) (hview : SameView session session state other) :
    SameView session session (state.onTrial session) (other.onTrial session) := by
  obtain ⟨horizon, rfl, hle, hsize⟩ := hnear
  have hahead := hview.ahead
  have htrial : state.position < windowEnd session state ↔
      state.position < windowEnd session { state with horizon } := by
    simp only [windowEnd] at hahead ⊢
    omega
  refine .of_current htrial ?_
  simp only [State.onTrial, State.current, htrial]
  rfl

theorem speculate_window (hreuse : session.reuse = false) (hwindow : 0 < session.window)
    {enter : Enter}
    (hstray : ∀ {kind}, session.grammar.Mentions kind → ∀ recovery state,
      Strayed mode state → Strayed mode (enter .trial kind recovery state))
    (htrial : ∀ kind recovery {state other}, Nearer session state other →
      Strayed .trial (enter .trial kind recovery state) ∨
        Nearer session (enter .trial kind recovery state) (enter .trial kind recovery other))
    (henter : ∀ kind recovery {state other}, Nearer session state other →
      Strayed mode (enter .trial kind recovery state) ∨
        Nearer session (enter .trial kind recovery state) (enter mode kind recovery other))
    {candidates : List Part} (hcandidates : candidates ≠ [])
    (hparts : ∀ part ∈ candidates, part ∈ session.grammar.parts) (recovery : Lookahead)
    {state other : State} (hnear : Nearer session state other)
    (hview : SameView session session state other) :
    Strayed mode (speculate enter session .trial candidates recovery state) ∨
      Nearer session (speculate enter session .trial candidates recovery state)
        (speculate enter session mode candidates recovery other) := by
  have hattempt : ∀ part ∈ candidates,
      (attempt enter session recovery state part).touched = true ∨
        Nearer session (attempt enter session recovery state part)
          (attempt enter session recovery other part) := by
    intro part hpart
    have hstep := lockstep_window.element (fun _ => htrial _) (hparts part hpart) recovery
      hnear.onTrial (hnear.sameView_onTrial hwindow hview)
    exact hstep.imp_left fun hstrayed => hstrayed.resolve_right (by simp)
  cases candidates with
  | nil => exact absurd rfl hcandidates
  | cons first others =>
      rw [speculate_eq_element hreuse, speculate_eq_element hreuse]
      -- One look beyond a window leaves its mark on the choice; without any, all ranks agree.
      cases hany : (first :: others).any fun part =>
          (attempt enter session recovery state part).touched with
      | true =>
          left
          obtain ⟨winner, hwinner, hbest, -⟩ := best_parallel first others fun part _ =>
            Eq.refl (rank state (attempt enter session recovery state part))
          rw [hbest]
          exact (respected_strayed session mode).element hstray (hparts winner hwinner) recovery _
            (.inl (by simp))
      | false =>
          have hrelated : ∀ part ∈ first :: others,
              Nearer session (attempt enter session recovery state part)
                (attempt enter session recovery other part) := by
            intro part hpart
            apply (hattempt part hpart).resolve_left
            simpa using List.any_eq_false.mp hany part hpart
          have hotherAny : ((first :: others).any fun part =>
              (attempt enter session recovery other part).touched) = false := by
            rw [List.any_eq_false]
            intro part hpart
            rw [(hrelated part hpart).touched_eq]
            exact List.any_eq_false.mp hany part hpart
          obtain ⟨winner, hwinner, hleft, hright⟩ := best_parallel first others fun part hpart =>
            hnear.rank_eq (hrelated part hpart)
          rw [hleft, hright, hotherAny, Bool.or_false, Bool.or_false]
          exact lockstep_window.element (fun _ => henter _) (hparts winner hwinner) recovery hnear
            hview

theorem node_window (hreuse : session.reuse = false) (hfinal : session.stream.final.kind = .eof)
    (hwindow : 0 < session.window) (mode : Mode) (levels : Nat) (kind : NodeKind)
    (recovery : Lookahead) {state other : State} (hnear : Nearer session state other) :
    Strayed mode (node session levels .trial kind recovery state) ∨
      Nearer session (node session levels .trial kind recovery state)
        (node session levels mode kind recovery other) := by
  induction levels generalizing mode kind recovery state other with
  | zero =>
      have hstep : Lockstep session session .trial mode _ _ := lockstep_window
      exact hstep.nest hnear kind (hstep.cut hfinal (hstep.inside hnear))
  | succ levels ih =>
      have hstep : Lockstep session session .trial mode _ _ := lockstep_window
      have hstray {kind : NodeKind} (hkind : session.grammar.Mentions kind) :=
        (respected_strayed session mode).node hfinal hreuse levels hkind
      have hbody := hstep.body hfinal hreuse hstray
        (fun _ recovery _ _ => ih mode _ recovery)
        (fun hcandidates hparts recovery _ _ => speculate_window hreuse hwindow hstray
          (fun kind recovery _ _ => ih .trial kind recovery)
          (fun kind recovery _ _ => ih mode kind recovery) hcandidates hparts recovery)
        (hstep.sharedRounds rfl) (show _ = session.grammar.production? kind from rfl) recovery
        (hstep.inside hnear)
      exact hstep.nest hnear kind hbody

end Parse

end LosslessTree
