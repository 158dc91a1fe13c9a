/-!
Columns: how many characters stand between the last line break and a place in the text. The
column is tracked piece by piece; `advance_append` says that the pieces do not matter.
-/

namespace LosslessTree

namespace Layout

def advance (column : Nat) : List Char → Nat
  | [] => column
  | c :: rest => advance (if c = '\n' then 0 else column + 1) rest

def columnAfter (text : List Char) : Nat := (text.reverse.takeWhile (· != '\n')).length

@[simp] theorem advance_nil (column : Nat) : advance column [] = column := rfl

theorem advance_append (column : Nat) (front back : List Char) :
    advance column (front ++ back) = advance (advance column front) back := by
  induction front generalizing column with
  | nil => rfl
  | cons c rest ih => exact ih _

end Layout

end LosslessTree
