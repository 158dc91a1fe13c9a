import LosslessTree.Node.Cursor

/-!
What goes from nodes to their children, with the depth growing by one, holds at all cursors of a
tree. The cursors of children stand at the children, and know the way that led to them.
-/

namespace LosslessTree

namespace Cursor

theorem siblings_focus (parent : Cursor) (position : Nat) (nodes : List Node) :
    (parent.siblings position nodes).map (·.focus) = nodes := by
  induction nodes generalizing position with
  | nil => rfl
  | cons node rest ih => rw [siblings, List.map_cons, ih]

theorem children_focus (cursor : Cursor) :
    cursor.children.map (·.focus) = cursor.focus.children :=
  siblings_focus cursor 0 _

theorem getElem?_siblings (parent : Cursor) (position index : Nat) (nodes : List Node) :
    (parent.siblings position nodes)[index]? =
      nodes[index]?.map fun node => ⟨node, (position + index, parent.focus) :: parent.above⟩ := by
  induction nodes generalizing position index with
  | nil => rfl
  | cons node rest ih =>
      rw [siblings]
      cases index with
      | zero => rfl
      | succ index =>
          rw [List.getElem?_cons_succ, List.getElem?_cons_succ, ih, Nat.add_right_comm,
            Nat.add_assoc]

theorem getElem?_children (cursor : Cursor) (index : Nat) :
    cursor.children[index]? = cursor.focus.children[index]?.map fun node =>
      ⟨node, (index, cursor.focus) :: cursor.above⟩ := by
  rw [children, getElem?_siblings, Nat.zero_add]

section

variable {cursor child : Cursor} {index : Nat} (hchild : cursor.children[index]? = some child)

include hchild

theorem above_of_child : child.above = (index, cursor.focus) :: cursor.above := by
  rw [getElem?_children, Option.map_eq_some_iff] at hchild
  obtain ⟨node, -, rfl⟩ := hchild
  rfl

theorem parent?_of_child : child.parent? = some cursor := by
  rw [parent?, above_of_child hchild]

theorem path_of_child : child.path = cursor.path ++ [index] := by
  rw [path, above_of_child hchild, List.map_cons, List.reverse_cons, path]

theorem ancestors_of_child : child.ancestors = cursor :: cursor.ancestors := by
  rw [ancestors, above_of_child hchild, ancestors.go, ancestors]

end

theorem siblingsFrom_eq_flatMap (parent : Node) (above : List (Nat × Node)) (position : Nat)
    (nodes : List Node) :
    siblingsFrom parent above position nodes =
      (siblings ⟨parent, above⟩ position nodes).flatMap descendants := by
  induction nodes generalizing position with
  | nil => rw [siblingsFrom, siblings, List.flatMap_nil]
  | cons node rest ih =>
      rw [siblingsFrom, siblings, List.flatMap_cons, ih]
      rfl

theorem descendants_eq_flatMap (cursor : Cursor) :
    cursor.descendants = cursor :: cursor.children.flatMap descendants := by
  obtain ⟨⟨kind, span, payload, nodes⟩, above⟩ := cursor
  rw [descendants, descendantsFrom, siblingsFrom_eq_flatMap]
  rfl

/-- What holds of a node at some depth holds of its children one level below. -/
def Downward (P : Nat → Node → Prop) : Prop :=
  ∀ depth node, P depth node → ∀ child ∈ node.children, P (depth + 1) child

variable {P : Nat → Node → Prop}

mutual

theorem descendantsFrom_induction (hdown : Downward P) {above : List (Nat × Node)} :
    ∀ {node : Node}, P above.length node → ∀ {cursor : Cursor},
      cursor ∈ descendantsFrom above node → P cursor.above.length cursor.focus
  | .mk kind span payload children, hnode, cursor, hcursor => by
      rw [descendantsFrom] at hcursor
      rcases List.mem_cons.mp hcursor with heq | hbelow
      · subst heq
        exact hnode
      · exact siblingsFrom_induction hdown (hdown _ _ hnode) hbelow

theorem siblingsFrom_induction (hdown : Downward P) {parent : Node}
    {above : List (Nat × Node)} {position : Nat} :
    ∀ {nodes : List Node}, (∀ node ∈ nodes, P (above.length + 1) node) → ∀ {cursor : Cursor},
      cursor ∈ siblingsFrom parent above position nodes → P cursor.above.length cursor.focus
  | [], _, cursor, hcursor => by
      rw [siblingsFrom] at hcursor
      cases hcursor
  | node :: rest, hnodes, cursor, hcursor => by
      obtain ⟨hnode, hrest⟩ := List.forall_mem_cons.mp hnodes
      rw [siblingsFrom] at hcursor
      rcases List.mem_append.mp hcursor with hfirst | hothers
      · have habove : P ((position, parent) :: above).length node := hnode
        exact descendantsFrom_induction hdown habove hfirst
      · exact siblingsFrom_induction hdown hrest hothers

end

theorem descendants_induction (hdown : Downward P) {root : Node} (hroot : P 0 root)
    {cursor : Cursor} (hcursor : cursor ∈ (ofRoot root).descendants) :
    P cursor.above.length cursor.focus := by
  have habove : P (ofRoot root).above.length root := hroot
  exact descendantsFrom_induction hdown habove hcursor

end Cursor

end LosslessTree
