import LosslessTree.Proofs.Layout.Detour
import LosslessTree.Proofs.Text.Offsets
import LosslessTree.Proofs.Token.Slice

/-!
Columns by byte offsets. A tracker remembers the last place that it was asked for and the column
there, and reads no more of the text than the piece up to the next place. Its answers are the columns
of the places, whichever were asked for before, and layout may take its columns from it.
-/

namespace LosslessTree

open Text

namespace Layout

def lastBreak? : List Char → Option Nat
  | [] => none
  | c :: rest =>
    match lastBreak? rest with
    | some offset => some (c.utf8Size + offset)
    | none => if c = '\n' then some 0 else none

def pieceBetween (start stop : Nat) (text : List Char) : Except Miscut (List Char) := do
  let (front, _) ← cut stop text
  let (_, piece) ← cut start front
  return piece

/-- A place in a text, by its byte offset, and the column there. -/
structure Tracker where
  offset : Nat
  column : Nat

namespace Tracker

def start : Tracker := ⟨0, 0⟩

def moveTo (text : List Char) (tracker : Tracker) (offset : Nat) : Except Miscut Tracker := do
  let skipped ← pieceBetween tracker.offset offset text
  match lastBreak? skipped with
  | some lineBreak =>
    let (_, line) ← cut (lineBreak + 1) skipped
    return ⟨offset, line.length⟩
  | none => return ⟨offset, tracker.column + skipped.length⟩

def columnsAt (text : List Char) (tracker : Tracker) : List Nat → Except Miscut (List Nat)
  | [] => .ok []
  | offset :: rest => do
    let next ← tracker.moveTo text offset
    let columns ← next.columnsAt text rest
    return next.column :: columns

def behind (front : List Char) : Tracker := ⟨byteSize front, columnAfter front⟩

end Tracker

/-- Layout with the columns of a tracker that goes to the start of each token with content. -/
def runTracked (text : List Char) (tracker : Tracker) (state : State) :
    List Token → Except Miscut (List Token)
  | [] => .ok []
  | token :: rest =>
    if token.isTrivia then do
      let tokens ← runTracked text tracker (pass token state) rest
      return token :: tokens
    else if token.kind = .eof then .ok (marksAt token (finish state) ++ [token])
    else do
      let tracker ← tracker.moveTo text token.span.start
      let stepped := step token { state with column := tracker.column }
      let tokens ← runTracked text tracker stepped.2 rest
      return marksAt token stepped.1 ++ token :: tokens

/-! ## Line breaks -/

theorem lastBreak?_of_not_mem {text : List Char} (hnone : '\n' ∉ text) : lastBreak? text = none := by
  induction text with
  | nil => rfl
  | cons c rest ih =>
      obtain ⟨hc, hrest⟩ := List.ne_and_not_mem_of_not_mem_cons hnone
      rw [lastBreak?, ih hrest]
      exact if_neg hc.symm

theorem lastBreak?_append (front : List Char) {line : List Char} (hline : '\n' ∉ line) :
    lastBreak? (front ++ '\n' :: line) = some (byteSize front) := by
  induction front with
  | nil =>
      rw [List.nil_append, lastBreak?, lastBreak?_of_not_mem hline]
      rfl
  | cons c front ih => rw [List.cons_append, lastBreak?, ih, byteSize_cons]

theorem advance_of_not_mem {line : List Char} (hline : '\n' ∉ line) (column : Nat) :
    advance column line = column + line.length := by
  induction line generalizing column with
  | nil => rfl
  | cons c line ih =>
      obtain ⟨hc, hrest⟩ := List.ne_and_not_mem_of_not_mem_cons hline
      rw [advance, if_neg hc.symm, ih hrest, List.length_cons, Nat.add_assoc, Nat.add_comm 1]

theorem columnAfter_append (front : List Char) {line : List Char} (hline : '\n' ∉ line) :
    columnAfter (front ++ line) = columnAfter front + line.length := by
  rw [← advance_eq_columnAfter, advance_append, advance_of_not_mem hline, advance_eq_columnAfter]

theorem columnAfter_break (front : List Char) {line : List Char} (hline : '\n' ∉ line) :
    columnAfter (front ++ '\n' :: line) = line.length := by
  rw [← advance_eq_columnAfter, advance_append, advance, if_pos rfl, advance_of_not_mem hline,
    Nat.zero_add]

theorem exists_last_line (text : List Char) :
    '\n' ∉ text ∨ ∃ front line, text = front ++ '\n' :: line ∧ '\n' ∉ line := by
  by_cases hbreak : '\n' ∈ text
  · obtain ⟨line, front, hsplit, hline⟩ := List.eq_append_cons_of_mem (List.mem_reverse.mpr hbreak)
    refine .inr ⟨front.reverse, line.reverse, ?_, fun hmem => hline (List.mem_reverse.mp hmem)⟩
    simpa using congrArg List.reverse hsplit
  · exact .inl hbreak

/-! ## Places -/

def IsPlace (text : List Char) (offset : Nat) : Prop :=
  ∃ front back, text = front ++ back ∧ byteSize front = offset

theorem front_unique {front back other rest : List Char} (hsplit : front ++ back = other ++ rest)
    (hsize : byteSize front = byteSize other) : front = other := by
  have hcut := cut_append front back
  rw [hsplit, hsize, cut_append] at hcut
  exact (Prod.mk.inj (Except.ok.inj hcut)).1.symm

theorem prefix_of_byteSize_le {text front other : List Char} (hfront : front <+: text)
    (hother : other <+: text) (hle : byteSize front ≤ byteSize other) : front <+: other := by
  rcases List.prefix_or_prefix_of_prefix hfront hother with hprefix | ⟨more, rfl⟩
  · exact hprefix
  · obtain ⟨rest, rfl⟩ := hfront
    rw [byteSize_append] at hle
    have hsame : other ++ more = other :=
      front_unique (List.append_assoc other more rest) (by rw [byteSize_append]; omega)
    exact hsame.symm ▸ List.prefix_rfl

theorem pieceBetween_append (front piece back : List Char) :
    pieceBetween (byteSize front) (byteSize (front ++ piece)) (front ++ (piece ++ back)) =
      .ok piece := by
  have hstop := cut_append (front ++ piece) back
  rw [List.append_assoc] at hstop
  unfold pieceBetween
  rw [hstop]
  change (cut (byteSize front) (front ++ piece) >>= fun parts => pure parts.2) = _
  rw [cut_append]
  rfl

namespace Tracker

/-- Wherever the tracker goes on to, it knows the column there. -/
theorem moveTo_behind (front piece back : List Char) :
    (behind front).moveTo (front ++ (piece ++ back)) (byteSize (front ++ piece)) =
      .ok (behind (front ++ piece)) := by
  unfold moveTo
  rw [behind, pieceBetween_append]
  change (match lastBreak? piece with
    | some lineBreak => cut (lineBreak + 1) piece >>= fun parts => pure _
    | none => pure _) = _
  rcases exists_last_line piece with hnone | ⟨early, line, rfl, hline⟩
  · rw [lastBreak?_of_not_mem hnone, ← columnAfter_append front hnone]
    rfl
  · have hmark : byteSize early + 1 = byteSize (early ++ ['\n']) := by
      rw [byteSize_append]
      rfl
    have hcut := cut_append (early ++ ['\n']) line
    rw [List.append_assoc, List.singleton_append] at hcut
    rw [lastBreak?_append early hline]
    dsimp only
    rw [hmark, hcut, ← List.append_assoc, behind, columnAfter_break _ hline]
    rfl

theorem moveTo_of_prefix {text front other : List Char} (hfront : front <+: other)
    (hother : other <+: text) :
    (behind front).moveTo text (byteSize other) = .ok (behind other) := by
  obtain ⟨piece, rfl⟩ := hfront
  obtain ⟨back, rfl⟩ := hother
  rw [List.append_assoc]
  exact moveTo_behind front piece back

/-- One column for each of the offsets, which go on from a place. -/
theorem columnsAt_behind {text front : List Char} (hfront : front <+: text) {offsets : List Nat}
    (hordered : (byteSize front :: offsets).Pairwise (· ≤ ·))
    (hplaces : ∀ offset ∈ offsets, IsPlace text offset) :
    ∃ columns, (behind front).columnsAt text offsets = .ok columns ∧
      List.Forall₂ (fun offset column => ∀ other back, text = other ++ back →
        byteSize other = offset → column = columnAfter other) offsets columns := by
  induction offsets generalizing front with
  | nil => exact ⟨[], rfl, .nil⟩
  | cons offset rest ih =>
      obtain ⟨⟨other, back, hsplit, rfl⟩, hrest⟩ := List.forall_mem_cons.mp hplaces
      obtain ⟨hlow, hordered⟩ := List.pairwise_cons.mp hordered
      have hother : other <+: text := ⟨back, hsplit.symm⟩
      have hmove := moveTo_of_prefix
        (prefix_of_byteSize_le hfront hother (hlow _ List.mem_cons_self)) hother
      obtain ⟨columns, hcolumns, hexact⟩ := ih hother hordered hrest
      refine ⟨columnAfter other :: columns, ?_, .cons ?_ hexact⟩
      · rw [columnsAt, hmove]
        change ((behind other).columnsAt text rest >>= fun columns => pure _) = _
        rw [hcolumns]
        rfl
      · intro same rest hsame hsize
        rw [front_unique (hsame.symm.trans hsplit) hsize]

end Tracker

/-! ## Layout -/

open Token

/-- Behind the tokens in front, layout finds at each token the column that it has counted. -/
theorem runTracked_reach (mode : Mode) {text : String} {before rest : List Token}
    (hscan : ofText text = before ++ rest) {front : List Char} (hfront : front <+: chars before) :
    runTracked text.toList (.behind front) (reach (start mode) before) rest =
      .ok (run (reach (start mode) before) rest) := by
  induction rest generalizing before front with
  | nil => rfl
  | cons token rest ih =>
      have hnext : ofText text = (before ++ [token]) ++ rest := by
        rw [hscan, List.append_assoc, List.singleton_append]
      have hpast : chars before <+: chars (before ++ [token]) :=
        ⟨chars [token], List.flatMap_append.symm⟩
      unfold runTracked run
      split
      · next htrivia =>
          have hrun := ih hnext (hfront.trans hpast)
          rw [reach_append, reach, reach, if_pos htrivia] at hrun
          rw [hrun]
          rfl
      · next htrivia =>
          split
          · rfl
          · have hstart : token.span.start = byteSize (chars before) := by
              rw [start_behind hscan, Nat.zero_add]
              rfl
            have hplace : chars before <+: text.toList := by
              obtain ⟨back, hback, -⟩ := scan_split hscan (List.cons_ne_nil _ _)
              exact ⟨back, hback.symm⟩
            have hcolumn : (reach (start mode) before).column = columnAfter (chars before) :=
              (column_reach (start mode) before).trans (advance_eq_columnAfter (chars before))
            have hrun := ih hnext hpast
            rw [reach_append, reach, reach, if_neg htrivia] at hrun
            have hsame : { reach (start mode) before with
                column := (Tracker.behind (chars before)).column } = reach (start mode) before := by
              rw [Tracker.behind, ← hcolumn]
            rw [hstart, Tracker.moveTo_of_prefix hfront hplace]
            dsimp only [bind, Except.bind]
            rw [hsame, hrun]
            rfl

/-- Tracked columns are exact. At places of a text that do not go back, the tracker answers each time
with the number of characters behind the last line break in front of the place, or behind the start of
the text, whatever it was asked before. Layout with the columns of a tracker inserts the same marks. -/
theorem columnsAt_exact (text : String) {offsets : List Nat} (hordered : offsets.Pairwise (· ≤ ·))
    (hplaces : ∀ offset ∈ offsets, IsPlace text.toList offset) :
    (∃ columns, Tracker.start.columnsAt text.toList offsets = .ok columns ∧
      List.Forall₂ (fun offset column => ∀ front back, text.toList = front ++ back →
        byteSize front = offset → column = columnAfter front) offsets columns) ∧
      ∀ mode, runTracked text.toList .start (start mode) (ofText text) =
        .ok (insertMarks mode (ofText text)) := by
  have hstart : (byteSize [] :: offsets).Pairwise (· ≤ ·) :=
    List.pairwise_cons.mpr ⟨fun offset _ => Nat.zero_le offset, hordered⟩
  refine ⟨Tracker.columnsAt_behind List.nil_prefix hstart hplaces, fun mode => ?_⟩
  exact @runTracked_reach mode text [] _ rfl [] List.nil_prefix

/-- Places in front of and behind letters of more than one byte, on two lines, one asked for twice. -/
theorem columnsAt_exact_of_umlauts :
    [0, 4, 4, 8, 10, 17].Pairwise (· ≤ ·) ∧
      Tracker.start.columnsAt "hé llo\n  wörld x".toList [0, 4, 4, 8, 10, 17] =
        .ok [0, 3, 3, 0, 2, 8] ∧
      (∃ columns,
        Tracker.start.columnsAt "hé llo\n  wörld x".toList [0, 4, 4, 8, 10, 17] = .ok columns ∧
        List.Forall₂ (fun offset column => ∀ front back,
          "hé llo\n  wörld x".toList = front ++ back →
            byteSize front = offset → column = columnAfter front) [0, 4, 4, 8, 10, 17] columns) ∧
      ∀ mode, runTracked "hé llo\n  wörld x".toList .start (start mode)
        (ofText "hé llo\n  wörld x") = .ok (insertMarks mode (ofText "hé llo\n  wörld x")) := by
  have hordered : [0, 4, 4, 8, 10, 17].Pairwise (· ≤ ·) := by decide
  have hfronts : ∀ front ∈ ["", "hé ", "hé ", "hé llo\n", "hé llo\n  ", "hé llo\n  wörld "],
      front.toList <+: "hé llo\n  wörld x".toList := by decide +kernel
  have hplaces : ∀ offset ∈ [0, 4, 4, 8, 10, 17], IsPlace "hé llo\n  wörld x".toList offset := by
    intro offset hoffset
    have hsizes : ["", "hé ", "hé ", "hé llo\n", "hé llo\n  ", "hé llo\n  wörld "].map
        String.utf8ByteSize = [0, 4, 4, 8, 10, 17] := by decide +kernel
    rw [← hsizes] at hoffset
    obtain ⟨front, hfront, rfl⟩ := List.mem_map.mp hoffset
    obtain ⟨back, hback⟩ := hfronts front hfront
    exact ⟨front.toList, back, hback.symm, byteSize_toList front⟩
  exact ⟨hordered, by rfl, columnsAt_exact _ hordered hplaces⟩

end Layout

end LosslessTree
