import LosslessTree.Text.Span

/-!
Pieces of a text at their places, and ranges that stand end to end. The offsets of a piece lie
between characters, so where one piece ends and the next begins, the two are one piece.
-/

namespace LosslessTree

theorem Text.append_inj {front back other rest : String} (htext : front ++ back = other ++ rest)
    (hsize : front.utf8ByteSize = other.utf8ByteSize) : front = other ∧ back = rest := by
  have hbytes := congrArg String.toByteArray htext
  rw [String.toByteArray_append, String.toByteArray_append] at hbytes
  have hfront : front = other := String.toByteArray_inj.mp (ByteArray.append_inj_left hbytes hsize)
  subst hfront
  exact ⟨rfl, (String.append_right_inj front).mp htext⟩

/-- A text has a piece between two offsets, which cut no character. -/
def Text.Reads (text : String) (start : Nat) (piece : String) (stop : Nat) : Prop :=
  ∃ front back, text = front ++ piece ++ back ∧ start = front.utf8ByteSize ∧
    stop = (front ++ piece).utf8ByteSize

namespace Text.Reads

variable {text piece more : String} {start middle stop : Nat}

theorem whole (text : String) : Reads text 0 text text.utf8ByteSize :=
  ⟨"", "", by simp, by simp, by simp⟩

theorem at_end (text : String) : Reads text text.utf8ByteSize "" text.utf8ByteSize :=
  ⟨text, "", by simp, rfl, by simp⟩

theorem at_start (hpiece : Reads text start piece stop) : Reads text start "" start := by
  obtain ⟨front, back, htext, hstart, -⟩ := hpiece
  exact ⟨front, piece ++ back, by rw [htext]; simp [String.append_assoc], hstart, by simpa⟩

theorem at_stop (hpiece : Reads text start piece stop) : Reads text stop "" stop := by
  obtain ⟨front, back, htext, -, hstop⟩ := hpiece
  exact ⟨front ++ piece, back, by simpa, hstop, by rw [hstop, String.append_empty]⟩

theorem append (hpiece : Reads text start piece middle) (hmore : Reads text middle more stop) :
    Reads text start (piece ++ more) stop := by
  obtain ⟨front, back, htext, hstart, hmiddle⟩ := hpiece
  obtain ⟨other, rest, htext', hmiddle', hstop⟩ := hmore
  rw [String.append_assoc] at htext'
  obtain ⟨rfl, -⟩ := append_inj (htext.symm.trans htext') (hmiddle.symm.trans hmiddle')
  exact ⟨front, rest, by rw [htext']; simp only [String.append_assoc], hstart,
    by rw [hstop, String.append_assoc]⟩

theorem eq_whole (hpiece : Reads text 0 piece text.utf8ByteSize) : piece = text := by
  obtain ⟨front, back, htext, hstart, hstop⟩ := hpiece
  have hfront : front = "" := String.utf8ByteSize_eq_zero_iff.mp hstart.symm
  have hsize := congrArg String.utf8ByteSize htext
  rw [String.utf8ByteSize_append, ← hstop] at hsize
  have hback : back = "" := String.utf8ByteSize_eq_zero_iff.mp (by omega)
  rw [htext, hfront, hback]
  simp

end Text.Reads

/-- Ranges from one offset to another, each of which begins where the one before it ends. -/
def Span.Joined : (low : Nat) → List Span → (high : Nat) → Prop
  | low, [], high => low = high
  | low, span :: rest, high => span.start = low ∧ Joined span.stop rest high

namespace Span.Joined

variable {low middle high : Nat} {spans more : List Span}

theorem append (hfirst : Joined low spans middle) (hsecond : Joined middle more high) :
    Joined low (spans ++ more) high := by
  induction spans generalizing low with
  | nil =>
      obtain rfl : low = middle := hfirst
      exact hsecond
  | cons span rest ih => exact ⟨hfirst.1, ih hfirst.2⟩

theorem split (hjoined : Joined low (spans ++ more) high) :
    ∃ middle, Joined low spans middle ∧ Joined middle more high := by
  induction spans generalizing low with
  | nil => exact ⟨low, rfl, hjoined⟩
  | cons span rest ih =>
      obtain ⟨middle, hfirst, hsecond⟩ := ih hjoined.2
      exact ⟨middle, ⟨hjoined.1, hfirst⟩, hsecond⟩

theorem stop_of_getLast? (hjoined : Joined low spans high) {last : Span}
    (hlast : spans.getLast? = some last) : last.stop = high := by
  induction spans generalizing low with
  | nil => cases hlast
  | cons span rest ih =>
      cases rest with
      | nil =>
          obtain rfl : span = last := Option.some.inj hlast
          exact hjoined.2
      | cons next rest =>
          rw [List.getLast?_cons_cons] at hlast
          exact ih hjoined.2 hlast

theorem le (hjoined : Joined low spans high) : low ≤ high := by
  induction spans generalizing low with
  | nil => exact Nat.le_of_eq hjoined
  | cons span rest ih =>
      obtain ⟨hlow, hrest⟩ := hjoined
      exact hlow ▸ Nat.le_trans span.start_le_stop (ih hrest)

end Span.Joined

end LosslessTree
