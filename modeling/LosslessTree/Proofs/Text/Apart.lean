import LosslessTree.Text.Span

/-!
Ranges that stand in order and apart from each other, between two offsets.
-/

namespace LosslessTree

def Span.Apart : (low : Nat) → List Span → (high : Nat) → Prop
  | low, [], high => low ≤ high
  | low, span :: rest, high => low ≤ span.start ∧ Apart span.stop rest high

namespace Span.Apart

variable {low middle high : Nat} {spans more : List Span}

theorem le (happart : Apart low spans high) : low ≤ high := by
  induction spans generalizing low with
  | nil => exact happart
  | cons span rest ih =>
      obtain ⟨hlow, hrest⟩ := happart
      exact Nat.le_trans hlow (Nat.le_trans span.start_le_stop (ih hrest))

theorem append (hfirst : Apart low spans middle) (hsecond : Apart middle more high) :
    Apart low (spans ++ more) high := by
  induction spans generalizing low with
  | nil =>
      cases more with
      | nil => exact Nat.le_trans hfirst hsecond
      | cons span rest => exact ⟨Nat.le_trans hfirst hsecond.1, hsecond.2⟩
  | cons span rest ih => exact ⟨hfirst.1, ih hfirst.2⟩

theorem split (happart : Apart low (spans ++ more) high) :
    ∃ middle, Apart low spans middle ∧ Apart middle more high := by
  induction spans generalizing low with
  | nil => exact ⟨low, Nat.le_refl low, happart⟩
  | cons span rest ih =>
      obtain ⟨middle, hfirst, hsecond⟩ := ih happart.2
      exact ⟨middle, ⟨happart.1, hfirst⟩, hsecond⟩

theorem mem (happart : Apart low spans high) {span : Span} (hspan : span ∈ spans) :
    low ≤ span.start ∧ span.stop ≤ high := by
  induction spans generalizing low with
  | nil => cases hspan
  | cons first rest ih =>
      obtain ⟨hlow, hrest⟩ := happart
      rcases List.mem_cons.mp hspan with rfl | hmem
      · exact ⟨hlow, hrest.le⟩
      · obtain ⟨hstart, hstop⟩ := ih hrest hmem
        exact ⟨Nat.le_trans hlow (Nat.le_trans first.start_le_stop hstart), hstop⟩

theorem pairwise (happart : Apart low spans high) :
    spans.Pairwise fun span next => span.stop ≤ next.start := by
  induction spans generalizing low with
  | nil => exact .nil
  | cons span rest ih =>
      exact .cons (fun next hnext => (happart.2.mem hnext).1) (ih happart.2)

theorem tighten (happart : Apart low spans high) {first last : Span}
    (hfirst : spans.head? = some first) (hlast : spans.getLast? = some last) :
    Apart first.start spans last.stop := by
  induction spans generalizing low first with
  | nil => cases hfirst
  | cons span rest ih =>
      obtain rfl : span = first := Option.some.inj hfirst
      refine ⟨Nat.le_refl _, ?_⟩
      cases rest with
      | nil =>
          obtain rfl : span = last := Option.some.inj hlast
          exact Nat.le_refl _
      | cons next rest =>
          rw [List.getLast?_cons_cons] at hlast
          obtain ⟨-, hnext⟩ := ih happart.2 rfl hlast
          exact ⟨happart.2.1, hnext⟩

end Span.Apart

namespace Span

/-- The range from the first of some ranges to the last, or the empty one at a place. -/
def around (offset : Nat) (spans : List Span) : Span :=
  match spans.head?, spans.getLast? with
  | some first, some last => (between? first.start last.stop).getD (.empty offset)
  | _, _ => .empty offset

variable {low high offset : Nat} {spans : List Span}

theorem Apart.between_around (happart : Apart low spans high) (offset : Nat) {first last : Span}
    (hfirst : spans.head? = some first) (hlast : spans.getLast? = some last) :
    between? first.start last.stop = some (around offset spans) := by
  have hordered := (happart.tighten hfirst hlast).le
  simp only [around, hfirst, hlast, between?, dif_pos hordered, Option.getD_some]

theorem Apart.inside_around (happart : Apart low spans high) (offset : Nat) (hspans : spans ≠ []) :
    Apart (around offset spans).start spans (around offset spans).stop := by
  have hfirst := List.head?_eq_some_head hspans
  have hlast := List.getLast?_eq_some_getLast hspans
  have hbetween := happart.between_around offset hfirst hlast
  obtain ⟨hstart, hstop⟩ := between?_eq_some_iff.mp hbetween
  rw [hstart, hstop]
  exact happart.tighten hfirst hlast

theorem Apart.around (happart : Apart low spans high) (hlow : low ≤ offset)
    (hhigh : offset ≤ high) : Apart low [Span.around offset spans] high := by
  by_cases hspans : spans = []
  · subst hspans
    exact ⟨hlow, hhigh⟩
  · have hinside := happart.inside_around offset hspans
    have hfirst := List.head_mem hspans
    have hlast := List.getLast_mem hspans
    have hbetween := happart.between_around offset
      (List.head?_eq_some_head hspans) (List.getLast?_eq_some_getLast hspans)
    obtain ⟨hstart, hstop⟩ := between?_eq_some_iff.mp hbetween
    refine ⟨?_, ?_⟩
    · rw [hstart]
      exact (happart.mem hfirst).1
    · change (Span.around offset spans).stop ≤ high
      rw [hstop]
      exact (happart.mem hlast).2

end Span

end LosslessTree
