import LosslessTree.Proofs.Parse.Abreast
import LosslessTree.Proofs.Parse.Coverage

/-!
Choices of two parses that see the same tokens up to a limit. Where no trial gets to the limit, all
trials come to the same rank on both sides, and so do the choices. Where one gets there, so do the
winners of both sides, although they need not be the same; and where a trial gets to, the real thing
gets as well.
-/

namespace LosslessTree

namespace Parse

open Grammar

/-! ## The winner of some trials -/

theorem Rank.progress_le {left right : Rank} (hnot : left.lt right = false) :
    right.progress ≤ left.progress := by
  simp only [Rank.lt, Bool.or_eq_false_iff, decide_eq_false_iff_not] at hnot
  omega

theorem best_outranks (state : State) (first : Part × State) (others : List (Part × State)) :
    best state first others ∈ first :: others ∧
      ∀ entry ∈ first :: others,
        (rank state entry.2).progress ≤ (rank state (best state first others).2).progress := by
  induction others generalizing first with
  | nil => exact ⟨List.mem_singleton.mpr rfl, by simp [best]⟩
  | cons second rest ih =>
      cases hlt : (rank state first.2).lt (rank state second.2) with
      | true =>
          have hbest : best state first (second :: rest) = best state second rest := by
            simp [best, hlt]
          obtain ⟨hmem, hrank⟩ := ih second
          rw [hbest]
          refine ⟨List.mem_cons_of_mem _ hmem, List.forall_mem_cons.mpr ⟨?_, hrank⟩⟩
          have hsecond := hrank second List.mem_cons_self
          simp only [Rank.lt, Bool.or_eq_true, decide_eq_true_eq, Bool.and_eq_true,
            beq_iff_eq] at hlt
          omega
      | false =>
          have hbest : best state first (second :: rest) = best state first rest := by
            simp [best, hlt]
          obtain ⟨hmem, hrank⟩ := ih first
          obtain ⟨hfirst, hrest⟩ := List.forall_mem_cons.mp hrank
          rw [hbest]
          refine ⟨?_, List.forall_mem_cons.mpr ⟨hfirst, List.forall_mem_cons.mpr ⟨?_, hrest⟩⟩⟩
          · rcases List.mem_cons.mp hmem with heq | hmem
            · exact List.mem_cons.mpr (.inl heq)
            · exact List.mem_cons_of_mem _ (List.mem_cons_of_mem _ hmem)
          · exact Nat.le_trans (Rank.progress_le hlt) hfirst

/-- Without reuse a choice parses the part of a trial that no other gets further than. -/
theorem exists_winner {session : Session} (hreuse : session.reuse = false) (enter : Enter)
    (mode : Mode) {candidates : List Part} (hcandidates : candidates ≠ []) (recovery : Lookahead)
    (state : State) :
    ∃ winner ∈ candidates, ∃ touched,
      speculate enter session mode candidates recovery state =
          element enter mode winner recovery { state with touched } ∧
        ∀ part ∈ candidates,
          (rank state (attempt enter session recovery state part)).progress ≤
            (rank state (attempt enter session recovery state winner)).progress := by
  cases candidates with
  | nil => exact absurd rfl hcandidates
  | cons first others =>
      let trial (part : Part) := (part, attempt enter session recovery state part)
      obtain ⟨hmem, hrank⟩ := best_outranks state (trial first) (others.map trial)
      rw [← List.map_cons] at hmem hrank
      obtain ⟨winner, hwinner, hbest⟩ := List.mem_map.mp hmem
      rw [← hbest] at hrank
      have hspeculate := speculate_eq_element hreuse enter mode first others recovery state
      rw [show (best state (trial first) (others.map trial)).1 = winner from
        (congrArg Prod.fst hbest).symm] at hspeculate
      exact ⟨winner, hwinner, _, hspeculate, fun part hpart =>
        hrank _ (List.mem_map.mpr ⟨part, hpart, rfl⟩)⟩

theorem respected_confined (session : Session) (mode : Mode) :
    Respected session mode fun before after =>
      after.horizon ≤ before.horizon ∧ after.position ≤ max before.position before.horizon where
  refl state := ⟨Nat.le_refl _, Nat.le_max_left _ _⟩
  trans := by
    intro first second third hfirst hsecond
    omega
  touch state _ := ⟨Nat.le_refl _, Nat.le_max_left _ _⟩
  bump state hahead := by
    rw [State.bump_of_ahead hahead]
    exact ⟨Nat.le_refl _, Nat.le_trans hahead (Nat.le_max_right _ _)⟩
  skip state stop complaint hahead := by
    cases mode with
    | trial => exact ⟨Nat.min_le_left _ _, Nat.le_max_left _ _⟩
    | actual =>
        have hrun := runOutside_le session stop (state.horizon - (state.position + 1))
          (state.position + 1)
        refine ⟨Nat.le_refl _, ?_⟩
        change state.position + (1 + _) ≤ _
        omega
  missing state expected what := by
    rw [State.position_missing]
    exact ⟨(respected_horizon session mode).missing state expected what, Nat.le_max_left _ _⟩
  nest _ _ _ _ hinner := hinner

/-! ## Ranks -/

theorem rank_of_unreported {state outcome : State} (hreports : outcome.reports = []) :
    rank state outcome = ⟨outcome.position - state.position, true⟩ := by
  rw [rank, hreports]
  rfl

theorem rank_of_failed {state outcome : State} {place : Nat} (hfailed : FailedAt [] place outcome) :
    rank state outcome = ⟨place - state.position, false⟩ := by
  obtain ⟨newer, report, hreports, rfl⟩ := hfailed
  rw [rank, hreports, List.getLast?_concat]

theorem le_progress_of_reached {state outcome : State} {place : Nat}
    (hreached : Reached [] place outcome) :
    place - state.position ≤ (rank state outcome).progress := by
  obtain ⟨hposition, newer, hreports, hnewer⟩ := hreached
  rw [List.append_nil] at hreports
  unfold rank
  split
  · next report hlast =>
      have hmem := List.mem_of_getLast? hlast
      exact Nat.sub_le_sub_right (hnewer report (hreports ▸ hmem)) _
  · exact Nat.sub_le_sub_right hposition _

/-! ## Choices -/

/-- The node calls of so many levels keep two parses abreast until they part. -/
def NodesAligned (levels : Nat) : Prop :=
  ∀ {left right : Session} {overlap : Overlap}, Agree left right overlap →
    ∀ (leftMode rightMode : Mode) {kind : NodeKind}, left.grammar.Mentions kind →
    ∀ (recovery : Lookahead) {origin : Origin} {state other : State},
      Abreast left right overlap origin state other →
      Aligned left right overlap origin (node left levels leftMode kind recovery state)
        (node right levels rightMode kind recovery other)

variable {left right : Session} {overlap : Overlap} {origin : Origin}
  {state other : State} {levels : Nat} {part : Part} {recovery : Lookahead}

theorem Agree.self {session : Session} (hfinal : session.stream.final.kind = .eof)
    (hreuse : session.reuse = false) (limit : Nat) : Agree session session ⟨0, limit, 0⟩ where
  grammar := rfl
  window := rfl
  size := .inl rfl
  token _ _ _ := .refl _
  final := .refl _
  leftFinal := hfinal
  leftReuse := hreuse
  rightReuse := hreuse

def Origin.ofTrials (state other : State) : Origin := ⟨state.built, other.built, [], []⟩

theorem Abreast.onTrial (hagree : Agree left right overlap)
    (h : Abreast left right overlap origin state other) :
    Abreast left right overlap (.ofTrials state other) (state.onTrial left)
      (other.onTrial right) where
  position := h.position
  above := h.above
  below := h.below
  horizon := by
    have hwindow : Tied overlap (state.position + left.window)
        (other.position + right.window) := by
      rw [h.position, hagree.window]
      exact .inl (by omega)
    exact (hwindow.min hagree.size).min h.horizon
  leftBound := Nat.le_trans (windowEnd_le state) h.leftBound
  rightBound := Nat.le_trans (windowEnd_le other) h.rightBound
  leftReports := rfl
  rightReports := rfl
  leftFresh := h.leftFresh
  rightFresh := h.rightFresh
  built := ⟨[], rfl, rfl⟩

/-- Where the trial of a part gets to a limit, parsing the part in earnest gets there as well. -/
theorem reached_of_trial (hnodes : NodesAligned levels) {session : Session}
    (hfinal : session.stream.final.kind = .eof) (hreuse : session.reuse = false) (mode : Mode)
    (hpart : part ∈ session.grammar.parts) {limit : Nat} (hbelow : state.position < limit)
    (hbound : state.horizon ≤ session.stream.size)
    (hfresh : ∀ place, state.lastReport = some place → place < state.position)
    (hwindow : limit ≤ windowEnd session state) (touched : Bool)
    (hrank : limit - state.position ≤
      (rank state (attempt (node session levels) session recovery state part)).progress) :
    Reached state.reports limit
      (element (node session levels) mode part recovery { state with touched }) := by
  have hagree : Agree session session ⟨0, limit, 0⟩ := .self hfinal hreuse limit
  have hstart : Abreast session session ⟨0, limit, 0⟩ ⟨state.built, state.built, [], state.reports⟩
      (state.onTrial session) { state with touched } := by
    refine ⟨rfl, Nat.zero_le _, hbelow, .inr ⟨hwindow, ?_⟩, Nat.le_trans (windowEnd_le state) hbound, hbound, rfl,
      rfl, hfresh, hfresh, [], rfl, rfl⟩
    exact Nat.le_trans hwindow (windowEnd_le state)
  have haligned := hstart.element (fun hkind recovery =>
    hnodes hagree .trial mode hkind recovery) hpart recovery
  have htrial : element (node session levels) .trial part recovery (state.onTrial session) =
      attempt (node session levels) session recovery state part := rfl
  rw [htrial] at haligned
  rcases haligned with habreast | ⟨place, hplace, hfailed, -⟩ | ⟨-, hreached⟩
  · have hposition := habreast.below
    rw [rank_of_unreported habreast.leftReports] at hrank
    change limit - state.position ≤ _ - state.position at hrank
    change _ < limit at hposition
    omega
  · rw [rank_of_failed hfailed] at hrank
    change limit - state.position ≤ place - state.position at hrank
    change place < limit at hplace
    omega
  · exact hreached

theorem le_windowEnd_of_reached {session : Session} (hfinal : session.stream.final.kind = .eof)
    (hreuse : session.reuse = false) (hpart : part ∈ session.grammar.parts) {limit : Nat}
    (hbelow : state.position < limit)
    (hreached : Reached [] limit (attempt (node session levels) session recovery state part)) :
    limit ≤ windowEnd session state := by
  have hconfined := respected_confined session .trial
  obtain ⟨-, hposition⟩ := hconfined.element (hconfined.node hfinal hreuse levels) hpart recovery
    (state.onTrial session)
  have hlimit : limit ≤ max state.position (windowEnd session state) :=
    Nat.le_trans hreached.position hposition
  omega

theorem Abreast.speculate (hnodes : NodesAligned levels) (hagree : Agree left right overlap)
    (leftMode rightMode : Mode) {candidates : List Part} (hcandidates : candidates ≠ [])
    (hparts : ∀ part ∈ candidates, part ∈ left.grammar.parts) (recovery : Lookahead)
    (h : Abreast left right overlap origin state other) :
    Aligned left right overlap origin
      (speculate (node left levels) left leftMode candidates recovery state)
      (speculate (node right levels) right rightMode candidates recovery other) := by
  have hright := hagree.rightParts hparts
  have htrials : ∀ part ∈ candidates, Aligned left right overlap (.ofTrials state other)
      (attempt (node left levels) left recovery state part)
      (attempt (node right levels) right recovery other part) := fun part hpart =>
    (h.onTrial hagree).element (fun hkind recovery => hnodes hagree .trial .trial hkind recovery)
      (hparts part hpart) recovery
  by_cases hreached : ∃ part ∈ candidates,
      Reached [] overlap.limit (attempt (node left levels) left recovery state part) ∧
        Reached [] (overlap.limit + overlap.shift)
          (attempt (node right levels) right recovery other part)
  · obtain ⟨part, hpart, hreachedLeft, hreachedRight⟩ := hreached
    obtain ⟨winner, hwinner, touched, heq, hrank⟩ :=
      exists_winner hagree.leftReuse (node left levels) leftMode hcandidates recovery state
    obtain ⟨otherWinner, hotherWinner, otherTouched, hother, hotherRank⟩ :=
      exists_winner hagree.rightReuse (node right levels) rightMode hcandidates recovery other
    have hbelow : other.position < overlap.limit + overlap.shift := by
      have := h.position
      have := h.below
      omega
    refine .inr (.inr ⟨?_, ?_⟩)
    · rw [heq, ← h.leftReports]
      exact reached_of_trial hnodes hagree.leftFinal hagree.leftReuse leftMode
        (hparts winner hwinner) h.below h.leftBound h.leftFresh
        (le_windowEnd_of_reached hagree.leftFinal hagree.leftReuse (hparts part hpart) h.below
          hreachedLeft) touched
        (Nat.le_trans (le_progress_of_reached hreachedLeft) (hrank part hpart))
    · rw [hother, ← h.rightReports]
      exact reached_of_trial hnodes hagree.rightFinal hagree.rightReuse rightMode
        (hright otherWinner hotherWinner) hbelow h.rightBound h.rightFresh
        (le_windowEnd_of_reached hagree.rightFinal hagree.rightReuse (hright part hpart) hbelow
          hreachedRight) otherTouched
        (Nat.le_trans (le_progress_of_reached hreachedRight) (hotherRank part hpart))
  · have hranks : ∀ part ∈ candidates,
        rank state (attempt (node left levels) left recovery state part) =
          rank other (attempt (node right levels) right recovery other part) := by
      intro part hpart
      have hposition := h.position
      rcases htrials part hpart with habreast | ⟨place, -, hfailed, hotherFailed⟩ | hboth
      · rw [rank_of_unreported habreast.leftReports, rank_of_unreported habreast.rightReports,
          habreast.position, hposition, Nat.add_sub_add_right]
      · rw [rank_of_failed hfailed, rank_of_failed hotherFailed, hposition, Nat.add_sub_add_right]
      · exact absurd ⟨part, hpart, hboth⟩ hreached
    cases candidates with
    | nil => exact absurd rfl hcandidates
    | cons first others =>
        obtain ⟨winner, hwinner, hleft, hother⟩ := best_parallel first others hranks
        rw [speculate_eq_element hagree.leftReuse, speculate_eq_element hagree.rightReuse, hleft,
          hother]
        refine Abreast.element (fun hkind recovery => hnodes hagree leftMode rightMode hkind recovery)
          (hparts winner hwinner) recovery ?_
        exact ⟨h.position, h.above, h.below, h.horizon, h.leftBound, h.rightBound, h.leftReports,
          h.rightReports, h.leftFresh, h.rightFresh, h.built⟩

theorem nodesAligned (levels : Nat) : NodesAligned levels := by
  induction levels with
  | zero =>
      intro left right overlap hagree leftMode rightMode kind _ recovery origin state other h
      exact h.outside kind (h.inside.cut hagree)
  | succ levels ih =>
      intro left right overlap hagree leftMode rightMode kind _ recovery origin state other h
      exact h.outside kind (h.inside.body hagree
        (fun hkind recovery => ih hagree leftMode rightMode hkind recovery)
        (fun hcandidates hparts recovery => Abreast.speculate ih hagree leftMode rightMode
          hcandidates hparts recovery) kind recovery)

namespace Agree

variable (hagree : Agree left right overlap) (levels : Nat)

include hagree

theorem nodes {kind : NodeKind} (hkind : left.grammar.Mentions kind) (recovery : Lookahead)
    {origin : Origin} {state other : State} (h : Abreast left right overlap origin state other) :
    Aligned left right overlap origin (node left levels .actual kind recovery state)
      (node right levels .actual kind recovery other) :=
  nodesAligned levels hagree .actual .actual hkind recovery h

theorem choices {candidates : List Part} (hcandidates : candidates ≠ [])
    (hparts : ∀ part ∈ candidates, part ∈ left.grammar.parts) (recovery : Lookahead)
    {origin : Origin} {state other : State} (h : Abreast left right overlap origin state other) :
    Aligned left right overlap origin
      (speculate (node left levels) left .actual candidates recovery state)
      (speculate (node right levels) right .actual candidates recovery other) :=
  h.speculate (nodesAligned levels) hagree .actual .actual hcandidates hparts recovery

end Agree

end Parse

end LosslessTree
