import LosslessTree.Proofs.Descent.Refinement

/-!
Where a parse stands between two steps. It is in front of a significant token or at the end, as is
its horizon, and nothing has been reported ahead of it; no step changes that. So each such state
comes to a state over words.
-/

namespace LosslessTree

/-- Where a significant token stands, or the end, there is a word or the end of the words. -/
theorem Tape.Solid.exists_indexOf {tape : Tape} {index : Nat} (hsolid : tape.Solid index) :
    ∃ position ≤ tape.words.size, index = tape.words.indexOf position := by
  have hbefore : ∀ stop ≤ tape.words.size, index ≤ tape.words.indexOf stop →
      ∃ position ≤ tape.words.size, index = tape.words.indexOf position := by
    intro stop hstop hle
    induction stop with
    | zero =>
        have hfront := hsolid.le_of_blank blank_leading (indexOf_le_size 0) (Nat.zero_le index)
        exact ⟨0, hstop, Nat.le_antisymm hle hfront⟩
    | succ stop ih =>
        rcases Nat.eq_or_lt_of_le hle with heq | hlt
        · exact ⟨stop + 1, hstop, heq⟩
        · refine ih (Nat.le_of_succ_le hstop) (Nat.le_of_not_lt fun hbehind => ?_)
          have hnext := hsolid.le_of_blank (blank_behind hstop) (indexOf_le_size _) hbehind
          exact Nat.not_lt_of_le hnext hlt
  exact hbefore _ (Nat.le_refl _) (indexOf_size ▸ hsolid.le_size)

namespace Descent

open Grammar

/-- A state that a parse may be in between two steps. -/
structure State.Stands (session : Session) (state : State) : Prop where
  index : session.tape.Solid state.index
  horizon : session.tape.Solid state.horizon
  index_le : state.index ≤ state.horizon
  behind : Behind state.diagnostics state.index

variable {session : Session} {base : Base} {state : State} {other : Parse.State}

theorem Mirrors.stands (hmirrors : Mirrors session base state other) : state.Stands session where
  index := hmirrors.index ▸ Tape.solid_indexOf _
  horizon := hmirrors.horizon ▸ Tape.solid_indexOf _
  index_le := by
    rw [hmirrors.index, hmirrors.horizon]
    exact Stream.indexOf_le hmirrors.position_le
  behind := hmirrors.behind

theorem exists_remembers (stream : Stream) (diagnostics : Array Diagnostic) :
    ∃ lastReport, Remembers stream diagnostics lastReport ∧
      ∀ position ∈ lastReport, position ≤ stream.size := by
  by_cases hword : ∃ position ≤ stream.size,
      diagnostics.back?.map (·.index) = some (stream.indexOf position)
  · obtain ⟨position, hposition, hindex⟩ := hword
    refine ⟨some position, fun other hother => ?_, fun other hother => ?_⟩
    · rw [hindex, Option.some_inj, Option.some_inj, Stream.indexOf_inj hposition hother]
    · rwa [← Option.mem_some_iff.mp hother]
  · refine ⟨none, fun other hother => ⟨fun hindex => ?_, nofun⟩, nofun⟩
    exact absurd ⟨other, hother, hindex⟩ hword

theorem State.Stands.exists_mirrors (hstands : state.Stands session) :
    ∃ base other, Mirrors session base state other ∧
      ∀ position ∈ other.lastReport, position ≤ other.position := by
  obtain ⟨position, hposition, hindex⟩ := hstands.index.exists_indexOf
  obtain ⟨horizon, hhorizon, heq⟩ := hstands.horizon.exists_indexOf
  obtain ⟨lastReport, hlast, hreport⟩ :=
    exists_remembers session.tape.words state.diagnostics
  refine ⟨⟨state.trials, horizon, state.events.toList, state.diagnostics.toList, [], []⟩,
    ⟨position, horizon, state.touched, [], [], lastReport⟩, ?_, fun report hmem => ?_⟩
  · exact {
      index := hindex
      horizon := heq
      position_le := by
        rw [← Stream.indexOf_le_iff hposition, ← hindex, ← heq]
        exact hstands.index_le
      horizon_le := Nat.le_refl _
      limit_le := hhorizon
      touched := rfl
      trials := rfl
      written := ⟨[], rfl, (List.append_nil _).symm⟩
      reported := ⟨[], [], rfl, (List.append_nil _).symm, .nil⟩
      last := hlast
      behind := hstands.behind }
  · have hsize := hreport report hmem
    obtain ⟨diagnostic, hdiagnostic, hplace⟩ :=
      Option.map_eq_some_iff.mp ((hlast report hsize).mpr hmem)
    rw [← Stream.indexOf_le_iff hsize, ← hplace, ← hindex]
    exact hstands.behind diagnostic hdiagnostic

section

variable (hfinal : session.tape.final.kind = .eof) (hwindow : 0 < session.window)
  (hstands : state.Stands session)

include hfinal hwindow hstands

/-- What may stand in a rule is parsed from one such state to another. -/
theorem State.Stands.slot (levels : Nat) {place : Place}
    (hparts : ∀ part ∈ place.parts, part ∈ session.grammar.parts) (recovery : Lookahead) :
    (slot (node session levels) session place recovery state).Stands session := by
  obtain ⟨base, other, hmirrors, -⟩ := hstands.exists_mirrors
  exact (hmirrors.slot hfinal hwindow (follows_node hfinal hwindow levels) hparts recovery).stands

theorem State.Stands.repeats (levels : Nat) {place : Place}
    (hparts : ∀ part ∈ place.parts, part ∈ session.grammar.parts) (follow recovery : Lookahead) :
    Repeats (node session levels) session place follow recovery true false state
      (matchAll (node session levels) session place follow recovery
        (session.tape.size - state.index + 1) true false state) := by
  obtain ⟨base, other, hmirrors, -⟩ := hstands.exists_mirrors
  exact hmirrors.repeats (follows_node hfinal hwindow levels) hfinal hwindow hparts follow recovery
    true false hmirrors.gap_lt

end

end Descent

end LosslessTree
