import Mathlib.Data.List.TakeWhile
import LosslessTree.Token.Lexeme.Basic

/-!
Classes of characters inside one another. A table of runs is inside another one if each of its
pieces lies in a run of the other, which is found in one pass over both.
-/

namespace LosslessTree

namespace CodeRun

def isInside (outer run : CodeRun) : Bool :=
  outer.first ≤ run.first && run.last ≤ outer.last && (run.first - outer.first) % outer.step == 0
    && (run.step % outer.step == 0 || run.first == run.last)

def ascends : (low : Nat) → List CodeRun → Bool
  | _, [] => true
  | low, run :: runs => low ≤ run.first && run.first ≤ run.last && ascends (run.last + 1) runs

def areInside : (inner outer : List CodeRun) → Bool
  | inner, [] => inner.isEmpty
  | inner, run :: runs => areInside (inner.dropWhile run.isInside) runs

theorem covers_of_isInside {outer run : CodeRun} (hinside : outer.isInside run = true) {code : Nat}
    (hcovers : run.covers code = true) : code ≤ outer.last ∧ outer.covers code = true := by
  simp only [isInside, covers, Bool.and_eq_true, Bool.or_eq_true, decide_eq_true_eq,
    beq_iff_eq] at hinside hcovers ⊢
  obtain ⟨⟨⟨hfirst, hlast⟩, hstart⟩, hstep⟩ := hinside
  obtain ⟨⟨hlow, hhigh⟩, hmod⟩ := hcovers
  refine ⟨by omega, ⟨by omega, by omega⟩, ?_⟩
  rcases hstep with hstep | hsingle
  · have hsum : code - outer.first = (code - run.first) + (run.first - outer.first) := by omega
    rw [hsum]
    refine Nat.mod_eq_zero_of_dvd (Nat.dvd_add ?_ (Nat.dvd_of_mod_eq_zero hstart))
    exact Nat.dvd_trans (Nat.dvd_of_mod_eq_zero hstep) (Nat.dvd_of_mod_eq_zero hmod)
  · rwa [show code = run.first by omega]

theorem le_of_holds {low code : Nat} {runs : List CodeRun} (hascends : ascends low runs = true)
    (hholds : holds code runs = true) : low ≤ code := by
  induction runs generalizing low with
  | nil => cases hholds
  | cons run runs ih =>
      simp only [ascends, Bool.and_eq_true, decide_eq_true_eq] at hascends
      unfold holds at hholds
      split at hholds
      · simp only [covers, Bool.and_eq_true, decide_eq_true_eq] at hholds
        omega
      · have hrest := ih hascends.2 hholds
        omega

theorem exists_covers_of_holds {code : Nat} {runs : List CodeRun}
    (hholds : holds code runs = true) : ∃ run ∈ runs, run.covers code = true := by
  induction runs with
  | nil => cases hholds
  | cons run runs ih =>
      unfold holds at hholds
      split at hholds
      · exact ⟨run, List.mem_cons_self, hholds⟩
      · obtain ⟨other, hother, hcovers⟩ := ih hholds
        exact ⟨other, List.mem_cons_of_mem _ hother, hcovers⟩

theorem holds_of_areInside {low code : Nat} {inner outer : List CodeRun}
    (hascends : ascends low outer = true) (hinside : areInside inner outer = true)
    {run : CodeRun} (hrun : run ∈ inner) (hcovers : run.covers code = true) :
    holds code outer = true := by
  induction outer generalizing low inner with
  | nil =>
      rw [List.isEmpty_iff.mp hinside] at hrun
      cases hrun
  | cons other others ih =>
      simp only [ascends, Bool.and_eq_true, decide_eq_true_eq] at hascends
      have hsplit := List.takeWhile_append_dropWhile (p := other.isInside) (l := inner)
      rcases List.mem_append.mp (hsplit ▸ hrun) with htaken | hdropped
      · obtain ⟨hlast, hcode⟩ := covers_of_isInside (List.mem_takeWhile_imp htaken) hcovers
        rwa [holds_cons_of_le hlast]
      · have hothers := ih hascends.2 hinside hdropped
        rwa [holds_cons_of_lt (le_of_holds hascends.2 hothers)]

/-- A run without gaps as it is, and the code points of another one each by itself. -/
def pieces (run : CodeRun) : List CodeRun :=
  if run.step = 1 then [run]
  else (List.range ((run.last - run.first) / run.step + 1)).map fun count =>
    ⟨run.first + count * run.step, run.first + count * run.step, 1⟩

theorem exists_piece {run : CodeRun} {code : Nat} (hcovers : run.covers code = true) :
    ∃ piece ∈ run.pieces, piece.covers code = true := by
  unfold pieces
  split
  · exact ⟨run, List.mem_singleton_self run, hcovers⟩
  · simp only [covers, Bool.and_eq_true, decide_eq_true_eq, beq_iff_eq] at hcovers
    obtain ⟨⟨hlow, hhigh⟩, hmod⟩ := hcovers
    have hcount := Nat.div_mul_cancel (Nat.dvd_of_mod_eq_zero hmod)
    refine ⟨_, List.mem_map.mpr ⟨(code - run.first) / run.step, List.mem_range.mpr ?_, rfl⟩, ?_⟩
    · exact Nat.lt_succ_of_le (Nat.div_le_div_right (by omega))
    · have hcode : run.first + (code - run.first) / run.step * run.step = code := by omega
      simp [covers, hcode]

theorem holds_of_pieces {code : Nat} {inner outer : List CodeRun}
    (hascends : ascends 0 outer = true) (hinside : areInside (inner.flatMap pieces) outer = true)
    (hholds : holds code inner = true) : holds code outer = true := by
  obtain ⟨run, hrun, hcovers⟩ := exists_covers_of_holds hholds
  obtain ⟨piece, hpiece, hcode⟩ := exists_piece hcovers
  exact holds_of_areInside hascends hinside (List.mem_flatMap.mpr ⟨run, hrun, hpiece⟩) hcode

def gaps : (low : Nat) → List CodeRun → List CodeRun
  | low, [] => [⟨low, 0x10FFFF, 1⟩]
  | low, run :: runs =>
    if low < run.first then ⟨low, run.first - 1, 1⟩ :: gaps (run.last + 1) runs
    else gaps (run.last + 1) runs

theorem not_holds_of_gaps {low code : Nat} {runs : List CodeRun}
    (hascends : ascends low runs = true) (hgap : holds code (gaps low runs) = true) :
    low ≤ code ∧ holds code runs = false := by
  induction runs generalizing low with
  | nil =>
      obtain ⟨gap, hmem, hcovers⟩ := exists_covers_of_holds hgap
      obtain rfl := List.mem_singleton.mp hmem
      simp only [covers, Bool.and_eq_true, decide_eq_true_eq] at hcovers
      exact ⟨hcovers.1.1, rfl⟩
  | cons run runs ih =>
      simp only [ascends, Bool.and_eq_true, decide_eq_true_eq] at hascends
      obtain ⟨⟨hlow, hrun⟩, hrest⟩ := hascends
      have hbehind (hgap : holds code (gaps (run.last + 1) runs) = true) :
          low ≤ code ∧ holds code (run :: runs) = false := by
        obtain ⟨hcode, hnone⟩ := ih hrest hgap
        exact ⟨by omega, by rwa [holds_cons_of_lt (by omega)]⟩
      unfold gaps at hgap
      split at hgap
      · unfold holds at hgap
        split at hgap
        · simp only [covers, Bool.and_eq_true, decide_eq_true_eq] at hgap
          refine ⟨hgap.1.1, ?_⟩
          rw [holds_cons_of_le (by omega)]
          simp only [covers, Bool.and_eq_false_iff, decide_eq_false_iff_not]
          left
          left
          omega
        · exact hbehind hgap
      · exact hbehind hgap

end CodeRun

namespace Text

theorem ascends_alphanumericRuns : CodeRun.ascends 0 alphanumericRuns = true := by decide +kernel

theorem isNameChar_of_isUppercase {c : Char} (hc : isUppercase c = true) : isNameChar c = true := by
  have hinside : CodeRun.areInside (uppercaseRuns.flatMap CodeRun.pieces) alphanumericRuns =
      true := by decide +kernel
  simp [isNameChar, isAlphanumeric,
    CodeRun.holds_of_pieces ascends_alphanumericRuns hinside hc]

theorem isNameChar_of_isVariableStart {c : Char} (hc : isVariableStart c = true) :
    isNameChar c = true := by
  have hinside : CodeRun.areInside (lowercaseRuns.flatMap CodeRun.pieces) alphanumericRuns =
      true := by decide +kernel
  rcases Bool.or_eq_true _ _ ▸ hc with hlower | hunderscore
  · simp [isNameChar, isAlphanumeric,
      CodeRun.holds_of_pieces ascends_alphanumericRuns hinside hlower]
  · simp [isNameChar, hunderscore]

def capitals : List CodeRun := uppercaseRuns.flatMap CodeRun.pieces

theorem ascends_capitals : CodeRun.ascends 0 capitals = true := by decide +kernel

theorem not_isUppercase_of_isVariableStart {c : Char} (hstart : isVariableStart c = true) :
    isUppercase c = false := by
  rcases Bool.or_eq_true _ _ ▸ hstart with hlower | hunderscore
  · -- Small letters lie in the gaps between the capital ones.
    have hgaps : CodeRun.ascends 0 (CodeRun.gaps 0 capitals) = true := by decide +kernel
    have hinside : CodeRun.areInside (lowercaseRuns.flatMap CodeRun.pieces)
        (CodeRun.gaps 0 capitals) = true := by decide +kernel
    have hwhole : CodeRun.areInside capitals capitals = true := by decide +kernel
    have hgap := CodeRun.holds_of_pieces hgaps hinside hlower
    obtain ⟨-, hnone⟩ := CodeRun.not_holds_of_gaps ascends_capitals hgap
    apply Bool.eq_false_iff.mpr
    intro hupper
    rw [CodeRun.holds_of_pieces ascends_capitals hwhole hupper] at hnone
    cases hnone
  · rw [beq_iff_eq.mp hunderscore]
    decide

end Text

end LosslessTree
