/-!
Ranges of text, counted in bytes from its start.
-/

namespace LosslessTree

structure Span where
  start : Nat
  stop : Nat
  start_le_stop : start ≤ stop := by omega
  deriving DecidableEq, Repr

namespace Span

def empty (offset : Nat) : Span := ⟨offset, offset, Nat.le_refl offset⟩

/-- The span between two offsets, none when they are the wrong way round. -/
def between? (start stop : Nat) : Option Span :=
  if ordered : start ≤ stop then some ⟨start, stop, ordered⟩ else none

def isEmpty (span : Span) : Bool := span.start == span.stop

def contains (outer inner : Span) : Bool :=
  outer.start ≤ inner.start && inner.stop ≤ outer.stop

def render (span : Span) : String :=
  toString span.start ++ ".." ++ toString span.stop

instance : Inhabited Span := ⟨empty 0⟩

@[simp] theorem start_empty (offset : Nat) : (empty offset).start = offset := rfl

@[simp] theorem stop_empty (offset : Nat) : (empty offset).stop = offset := rfl

theorem contains_iff {outer inner : Span} :
    outer.contains inner = true ↔ outer.start ≤ inner.start ∧ inner.stop ≤ outer.stop := by
  simp [contains]

theorem between?_eq_some_iff {start stop : Nat} {span : Span} :
    between? start stop = some span ↔ span.start = start ∧ span.stop = stop := by
  obtain ⟨low, high, ordered⟩ := span
  unfold between?
  split
  · simp [eq_comm]
  · simp; omega

end Span

end LosslessTree
