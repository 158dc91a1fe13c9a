import LosslessTree.Proofs.Node.Cursor
import LosslessTree.Proofs.Node.Descendants

/-!
What surrounds a node in its tree: the leaves in front of it and those behind it, in the order of
the text. A node that stands among its siblings has theirs around it, and then those of its parent.
-/

namespace LosslessTree

namespace Cursor

def leavesBefore : List (Nat × Node) → List Node
  | [] => []
  | (position, parent) :: above =>
    leavesBefore above ++ (parent.children.take position).flatMap Node.leaves

def leavesBehind : List (Nat × Node) → List Node
  | [] => []
  | (position, parent) :: above =>
    (parent.children.drop (position + 1)).flatMap Node.leaves ++ leavesBehind above

def preceding (cursor : Cursor) : List Node := leavesBefore cursor.above

def following (cursor : Cursor) : List Node := leavesBehind cursor.above

variable {parent node : Node} {above : List (Nat × Node)} {front back : List Node}

theorem leavesBefore_child (hparent : parent.children = front ++ node :: back) :
    leavesBefore ((front.length, parent) :: above) =
      leavesBefore above ++ front.flatMap Node.leaves := by
  rw [leavesBefore, hparent, List.take_left]

theorem leavesBehind_child (hparent : parent.children = front ++ node :: back) :
    leavesBehind ((front.length, parent) :: above) =
      back.flatMap Node.leaves ++ leavesBehind above := by
  have hdrop : (front ++ node :: back).drop (front.length + 1) = back := by
    rw [← List.drop_drop, List.drop_left, List.drop_one, List.tail_cons]
  rw [leavesBehind, hparent, hdrop]

theorem siblingsFrom_append (parent : Node) (above : List (Nat × Node)) (position : Nat)
    (nodes more : List Node) :
    siblingsFrom parent above position (nodes ++ more) =
      siblingsFrom parent above position nodes
        ++ siblingsFrom parent above (position + nodes.length) more := by
  induction nodes generalizing position with
  | nil => rfl
  | cons node rest ih =>
      rw [List.cons_append, siblingsFrom, siblingsFrom, ih, List.append_assoc, List.length_cons,
        Nat.add_right_comm, Nat.add_assoc]

theorem descendants_ofRoot (root : Node) :
    (ofRoot root).descendants = ofRoot root :: siblingsFrom root [] 0 root.children := by
  cases root with
  | mk => rfl

theorem descendantsFrom_eq (above : List (Nat × Node)) (node : Node) :
    descendantsFrom above node = ⟨node, above⟩ :: siblingsFrom node above 0 node.children := by
  cases node with
  | mk => rfl

end Cursor

end LosslessTree
