import Mathlib.Data.List.Nodup
import LosslessTree.Proofs.Node.Cursor
import LosslessTree.Proofs.Node.Numbering

/-!
The cursors of a finished tree stand at the numbers below its root, one cursor at each, and go to
parents and children as the numbers do. So whatever calls made a tree, it is as well formed as the
arena that the same calls fill.
-/

namespace LosslessTree

namespace Arena

/-- A cursor stands at the number that one comes to by the same way from the root. -/
inductive Stands (arena : Arena) (root : Nat) (top : Node) : Nat → Cursor → Prop
  | root : Stands arena root top root (.ofRoot top)
  | child {id child position : Nat} {cursor below : Cursor}
      (hstands : Stands arena root top id cursor)
      (hchild : (arena.children id)[position]? = some child)
      (hbelow : cursor.children[position]? = some below) : Stands arena root top child below

/-- Each way up or down from a cursor of a tree is one among the numbers of an arena. -/
structure Carries (arena : Arena) (start : Nat) (tree : Tree) : Prop where
  size : tree.size = arena.size
  root : arena.parent? start = none
  node {id : Nat} {cursor : Cursor} : Stands arena start tree.root id cursor →
    ∃ entry, arena.entries[id]? = some entry ∧ cursor.focus.kind = entry.kind ∧
      cursor.focus.span = entry.span ∧ cursor.focus.payload = entry.payload
  children {id : Nat} {cursor : Cursor} : Stands arena start tree.root id cursor →
    List.Forall₂ (Stands arena start tree.root) (arena.children id) cursor.children
  parent {id : Nat} {cursor : Cursor} : Stands arena start tree.root id cursor →
    Option.Rel (Stands arena start tree.root) (arena.parent? id) cursor.parent?
  ancestors {id : Nat} {cursor : Cursor} {above : List Nat} :
    Stands arena start tree.root id cursor → Climbs arena id above →
      List.Forall₂ (Stands arena start tree.root) above cursor.ancestors
  descendants {id : Nat} {cursor : Cursor} {below : List Nat} :
    Stands arena start tree.root id cursor → Visits arena [id] below →
      List.Forall₂ (Stands arena start tree.root) below cursor.descendants
  unique : Relator.BiUnique (Stands arena start tree.root)
  same {id other : Nat} {cursor place : Cursor} : Stands arena start tree.root id cursor →
    Stands arena start tree.root other place → (cursor.isSamePlace place = true ↔ id = other)

variable {arena : Arena} {builder : Builder} {root id other : Nat} {top node : Node}
  {cursor place : Cursor}

/-! ## Entries and nodes -/

theorem Describes.exists_entry (hdescribes : Describes arena builder) {taken : Bool}
    (hnode : builder.nodes[id]? = some (node, taken)) :
    ∃ entry children, arena.entries[id]? = some entry ∧
      node = .mk entry.kind entry.span entry.payload children ∧ taken = entry.parent.isSome ∧
        List.Forall₂ builder.Keeps entry.children children := by
  cases hentry : arena.entries[id]? with
  | none => simp [hdescribes.nodes_eq_none hentry] at hnode
  | some entry =>
      obtain ⟨children, hmade, hchildren⟩ := hdescribes.entry hentry
      rw [hnode] at hmade
      cases hmade
      exact ⟨entry, children, rfl, rfl, rfl, hchildren⟩

theorem Describes.forall₂_children (hdescribes : Describes arena builder)
    (hkeeps : builder.Keeps id node) :
    List.Forall₂ builder.Keeps (arena.children id) node.children := by
  obtain ⟨taken, hnode⟩ := hkeeps
  obtain ⟨entry, children, hentry, rfl, -, hchildren⟩ := hdescribes.exists_entry hnode
  rwa [Arena.children, hentry]

theorem Describes.parent?_eq_none (hdescribes : Describes arena builder)
    (hnode : builder.nodes[id]? = some (node, false)) : arena.parent? id = none := by
  obtain ⟨entry, _, hentry, -, hfree, -⟩ := hdescribes.exists_entry hnode
  rw [parent?, hentry]
  simpa using hfree.symm

theorem forall₂_getElem? {α β : Type} {related : α → β → Prop} {left : List α} {right : List β}
    (hrelated : List.Forall₂ related left right) {position : Nat} {first : α} {second : β}
    (hfirst : left[position]? = some first) (hsecond : right[position]? = some second) :
    related first second := by
  obtain ⟨hleft, rfl⟩ := List.getElem?_eq_some_iff.mp hfirst
  obtain ⟨hright, rfl⟩ := List.getElem?_eq_some_iff.mp hsecond
  exact hrelated.get hleft hright

namespace Stands

/-! ## Downwards -/

section

variable (hdescribes : Describes arena builder) (hroot : builder.nodes[root]? = some (top, false))

include hdescribes hroot

theorem keeps (hstands : Stands arena root top id cursor) : builder.Keeps id cursor.focus := by
  induction hstands with
  | root => exact ⟨false, hroot⟩
  | child _ hchild hbelow ih =>
      rw [Cursor.getElem?_children, Option.map_eq_some_iff] at hbelow
      obtain ⟨node, hnode, rfl⟩ := hbelow
      exact forall₂_getElem? (hdescribes.forall₂_children ih) hchild hnode

theorem children (hstands : Stands arena root top id cursor) :
    List.Forall₂ (Stands arena root top) (arena.children id) cursor.children := by
  have hnodes := hdescribes.forall₂_children (hstands.keeps hdescribes hroot)
  have hlength : (arena.children id).length = cursor.children.length := by
    rw [hnodes.length_eq, ← Cursor.children_focus, List.length_map]
  refine List.forall₂_iff_get.mpr ⟨hlength, fun position hleft hright => ?_⟩
  exact .child hstands (List.getElem?_eq_getElem hleft) (List.getElem?_eq_getElem hright)

theorem descendants {ids below : List Nat} {cursors : List Cursor}
    (hstands : List.Forall₂ (Stands arena root top) ids cursors)
    (hpreorder : Preorder arena ids below) :
    List.Forall₂ (Stands arena root top) below (cursors.flatMap Cursor.descendants) := by
  induction hpreorder generalizing cursors with
  | nil =>
      cases hstands
      exact .nil
  | cons _ _ hbelow hothers =>
      cases hstands with
      | cons hcursor hrest =>
          rw [List.flatMap_cons, Cursor.descendants_eq_flatMap]
          have hown := hbelow (hcursor.children hdescribes hroot)
          exact List.rel_append (.cons hcursor hown) (hothers hrest)

end

/-! ## Upwards -/

section

variable (hlinked : Linked arena) (hfree : arena.parent? root = none)

include hlinked

theorem parent?_of_child {child position : Nat}
    (hchild : (arena.children id)[position]? = some child) : arena.parent? child = some id :=
  hlinked.parent.mp (List.mem_of_getElem? hchild)

include hfree

theorem parent (hstands : Stands arena root top id cursor) :
    Option.Rel (Stands arena root top) (arena.parent? id) cursor.parent? := by
  cases hstands with
  | root =>
      rw [hfree]
      exact .none
  | child hstands hchild hbelow =>
      rw [parent?_of_child hlinked hchild, Cursor.parent?_of_child hbelow]
      exact .some hstands

theorem ancestors {above : List Nat} (hstands : Stands arena root top id cursor)
    (hclimbs : Climbs arena id above) :
    List.Forall₂ (Stands arena root top) above cursor.ancestors := by
  induction hclimbs generalizing cursor with
  | top hparent =>
      cases hstands with
      | root => exact .nil
      | child _ hchild => simp [parent?_of_child hlinked hchild] at hparent
  | step hparent _ ih =>
      cases hstands with
      | root => simp [hfree] at hparent
      | child hstands hchild hbelow =>
          rw [parent?_of_child hlinked hchild] at hparent
          cases hparent
          rw [Cursor.ancestors_of_child hbelow]
          exact .cons hstands (ih hstands)

theorem cursor_unique (hstands : Stands arena root top id cursor)
    (hagain : Stands arena root top id place) : cursor = place := by
  induction hstands generalizing place with
  | root =>
      cases hagain with
      | root => rfl
      | child _ hchild => simp [parent?_of_child hlinked hchild] at hfree
  | child _ hchild hbelow ih =>
      cases hagain with
      | root => simp [parent?_of_child hlinked hchild] at hfree
      | child hagain hother hplace =>
          have hparent := parent?_of_child hlinked hchild
          rw [parent?_of_child hlinked hother] at hparent
          cases hparent
          obtain rfl := ih hagain
          -- No number is twice among the children, so both came from one position.
          have hlength := (List.getElem?_eq_some_iff.mp hchild).1
          obtain rfl :=
            (List.getElem?_inj hlength (hlinked.nodup _)).mp (hchild.trans hother.symm)
          exact Option.some.inj (hbelow.symm.trans hplace)

omit hlinked hfree in
theorem id_unique (hstands : Stands arena root top id cursor)
    (hagain : Stands arena root top other place) (hpath : cursor.path = place.path) :
    id = other := by
  induction hstands generalizing other place with
  | root =>
      cases hagain with
      | root => rfl
      | child _ _ hplace =>
          rw [Cursor.path_of_child hplace] at hpath
          simp [Cursor.path, Cursor.ofRoot] at hpath
  | child _ hchild hbelow ih =>
      rw [Cursor.path_of_child hbelow] at hpath
      cases hagain with
      | root => simp [Cursor.path, Cursor.ofRoot] at hpath
      | child hagain hother hplace =>
          rw [Cursor.path_of_child hplace] at hpath
          obtain ⟨hpath, hposition⟩ := List.append_inj' hpath rfl
          obtain rfl := ih hagain hpath
          cases hposition
          exact Option.some.inj (hchild.symm.trans hother)

end

end Stands

theorem Describes.carries (hdescribes : Describes arena builder) (hlinked : Linked arena)
    {tree : Tree} (hfinish : builder.finish root = .ok tree) : Carries arena root tree := by
  obtain ⟨hroot, hsize⟩ : builder.nodes[root]? = some (tree.root, false) ∧
      tree.size = builder.nodes.size := by
    unfold Builder.finish at hfinish
    split at hfinish
    · cases hfinish
    · cases hfinish
    · next hroot =>
        cases hfinish
        exact ⟨hroot, rfl⟩
  have hfree := hdescribes.parent?_eq_none hroot
  constructor
  · rw [hsize, hdescribes.size]
  · exact hfree
  · intro id cursor hstands
    obtain ⟨_, hnode⟩ := hstands.keeps hdescribes hroot
    obtain ⟨entry, _, hentry, hmade, -⟩ := hdescribes.exists_entry hnode
    exact ⟨entry, hentry, by rw [hmade]; rfl, by rw [hmade]; rfl, by rw [hmade]; rfl⟩
  · exact fun hstands => hstands.children hdescribes hroot
  · exact fun hstands => hstands.parent hlinked hfree
  · exact fun hstands hclimbs => hstands.ancestors hlinked hfree hclimbs
  · intro id cursor below hstands hvisits
    have hbelow := Stands.descendants hdescribes hroot (.cons hstands .nil)
      (hlinked.visits_iff.mp hvisits)
    rwa [List.flatMap_singleton] at hbelow
  · constructor
    · rintro id other cursor hstands hagain
      exact hstands.id_unique hagain rfl
    · rintro id cursor place hstands hagain
      exact hstands.cursor_unique hlinked hfree hagain
  · intro id other cursor place hstands hagain
    rw [Cursor.isSamePlace, beq_iff_eq]
    constructor
    · exact hstands.id_unique hagain
    · rintro rfl
      rw [hstands.cursor_unique hlinked hfree hagain]

end Arena

/-! ## Well-formed trees -/

namespace Tree

def cursors (tree : Tree) : List Cursor := (Cursor.ofRoot tree.root).descendants

structure WellFormed (tree : Tree) : Prop where
  contains {cursor child : Cursor} : cursor ∈ tree.cursors → child ∈ cursor.children →
    child ∈ tree.cursors ∧ cursor.focus.span.contains child.focus.span = true
  ordered {cursor : Cursor} : cursor ∈ tree.cursors →
    cursor.children.Pairwise fun child next => child.focus.span.stop ≤ next.focus.span.start
  parent {cursor child : Cursor} : cursor ∈ tree.cursors → child ∈ tree.cursors →
    (child ∈ cursor.children ↔ child.parent? = some cursor)
  once {cursor : Cursor} : cursor ∈ tree.cursors → cursor.children.Nodup
  descendants {cursor : Cursor} : cursor ∈ tree.cursors →
    cursor.descendants = cursor :: cursor.children.flatMap Cursor.descendants ∧
      cursor.descendants.Nodup ∧
      (cursor.descendants.filter (·.focus.children.isEmpty)).Pairwise fun leaf next =>
        leaf.focus.span.stop ≤ next.focus.span.start
  ancestors {cursor : Cursor} : cursor ∈ tree.cursors →
    cursor ∉ cursor.ancestors ∧ ∀ other ∈ tree.cursors,
      (other ∈ cursor.ancestors ↔ other ≠ cursor ∧ cursor ∈ other.descendants)

end Tree

namespace Arena.Carries

variable {arena : Arena} {start id other : Nat} {tree : Tree} {cursor place : Cursor}
  {ids : List Nat} {cursors : List Cursor} (hcarries : Carries arena start tree)

include hcarries

theorem span_eq (hstands : Stands arena start tree.root id cursor) :
    cursor.focus.span = arena.span id := by
  obtain ⟨entry, hentry, -, hspan, -⟩ := hcarries.node hstands
  rw [hspan, Arena.span, hentry]
  rfl

theorem spans_eq (hstands : List.Forall₂ (Stands arena start tree.root) ids cursors) :
    cursors.map (·.focus.span) = ids.map arena.span := by
  induction hstands with
  | nil => rfl
  | cons hstands _ ih => rw [List.map_cons, List.map_cons, hcarries.span_eq hstands, ih]

theorem pairwise_iff (hstands : List.Forall₂ (Stands arena start tree.root) ids cursors) :
    (cursors.Pairwise fun node next => node.focus.span.stop ≤ next.focus.span.start) ↔
      ids.Pairwise fun node next => (arena.span node).stop ≤ (arena.span next).start := by
  rw [← List.pairwise_map (f := fun cursor : Cursor => cursor.focus.span)
    (R := fun span next : Span => span.stop ≤ next.start), hcarries.spans_eq hstands,
    List.pairwise_map]

theorem mem_iff (hstands : Stands arena start tree.root id cursor)
    (hall : List.Forall₂ (Stands arena start tree.root) ids cursors) :
    id ∈ ids ↔ cursor ∈ cursors :=
  List.rel_mem hcarries.unique hstands hall

theorem parent_iff (hstands : Stands arena start tree.root id cursor)
    (hplace : Stands arena start tree.root other place) :
    arena.parent? id = some other ↔ cursor.parent? = some place := by
  have hparent := hcarries.parent hstands
  generalize arena.parent? id = left at hparent ⊢
  generalize cursor.parent? = right at hparent ⊢
  cases hparent with
  | none => simp
  | some hsame =>
      rw [Option.some.injEq, Option.some.injEq]
      constructor
      · rintro rfl
        exact hcarries.unique.2 hsame hplace
      · rintro rfl
        exact hcarries.unique.1 hsame hplace

omit hcarries in
theorem exists_of_mem (hall : List.Forall₂ (Stands arena start tree.root) ids cursors)
    (hcursor : cursor ∈ cursors) : ∃ id ∈ ids, Stands arena start tree.root id cursor := by
  obtain ⟨position, hlt, rfl⟩ := List.getElem_of_mem hcursor
  exact ⟨_, List.getElem_mem _, hall.get (hall.length_eq ▸ hlt) hlt⟩

theorem filter_leaves (hall : List.Forall₂ (Stands arena start tree.root) ids cursors) :
    List.Forall₂ (Stands arena start tree.root)
      (ids.filter fun id => (arena.children id).isEmpty)
      (cursors.filter (·.focus.children.isEmpty)) := by
  refine List.rel_filter (fun id cursor hstands => ?_) hall
  have hlength : (arena.children id).length = cursor.focus.children.length := by
    rw [(hcarries.children hstands).length_eq, ← Cursor.children_focus, List.length_map]
  simp only [List.isEmpty_iff_length_eq_zero, hlength]

variable (hwell : arena.WellFormed)

include hwell

theorem mem_cursors_iff :
    cursor ∈ tree.cursors ↔ ∃ id, Stands arena start tree.root id cursor := by
  obtain ⟨below, hvisits, -, -, hbelow, -⟩ := hwell.descendants start
  have hall := hcarries.descendants .root hvisits
  constructor
  · intro hcursor
    obtain ⟨id, -, hstands⟩ := exists_of_mem hall hcursor
    exact ⟨id, hstands⟩
  · rintro ⟨id, hstands⟩
    refine (hcarries.mem_iff hstands hall).mp ((hbelow id).mpr ?_)
    induction hstands with
    | root => exact .refl
    | child _ hchild _ ih => exact ih.tail (List.mem_of_getElem? hchild)

theorem wellFormed : tree.WellFormed := by
  constructor
  · intro cursor child hcursor hchild
    obtain ⟨id, hstands⟩ := (hcarries.mem_cursors_iff hwell).mp hcursor
    obtain ⟨childId, hmem, hchild⟩ := exists_of_mem (hcarries.children hstands) hchild
    refine ⟨(hcarries.mem_cursors_iff hwell).mpr ⟨childId, hchild⟩, ?_⟩
    rw [hcarries.span_eq hstands, hcarries.span_eq hchild]
    exact hwell.contains hmem
  · intro cursor hcursor
    obtain ⟨id, hstands⟩ := (hcarries.mem_cursors_iff hwell).mp hcursor
    exact (hcarries.pairwise_iff (hcarries.children hstands)).mpr (hwell.ordered id)
  · intro cursor child hcursor hchild
    obtain ⟨id, hstands⟩ := (hcarries.mem_cursors_iff hwell).mp hcursor
    obtain ⟨childId, hchild⟩ := (hcarries.mem_cursors_iff hwell).mp hchild
    rw [← hcarries.mem_iff hchild (hcarries.children hstands), hwell.parent,
      hcarries.parent_iff hchild hstands]
  · intro cursor hcursor
    obtain ⟨id, hstands⟩ := (hcarries.mem_cursors_iff hwell).mp hcursor
    refine (List.rel_nodup hcarries.unique (hcarries.children hstands)).mp ?_
    exact List.nodup_iff_count_eq_one.mpr fun _ => hwell.once
  · intro cursor hcursor
    obtain ⟨id, hstands⟩ := (hcarries.mem_cursors_iff hwell).mp hcursor
    obtain ⟨below, hvisits, -, hnodup, -, hleaves⟩ := hwell.descendants id
    have hall := hcarries.descendants hstands hvisits
    refine ⟨Cursor.descendants_eq_flatMap cursor, ?_, ?_⟩
    · exact (List.rel_nodup hcarries.unique hall).mp hnodup
    · exact (hcarries.pairwise_iff (hcarries.filter_leaves hall)).mpr hleaves
  · intro cursor hcursor
    obtain ⟨id, hstands⟩ := (hcarries.mem_cursors_iff hwell).mp hcursor
    obtain ⟨above, hclimbs, hself, habove⟩ := hwell.ancestors id
    have hall := hcarries.ancestors hstands hclimbs
    refine ⟨fun hmem => hself ((hcarries.mem_iff hstands hall).mpr hmem), fun other hother => ?_⟩
    obtain ⟨otherId, hplace⟩ := (hcarries.mem_cursors_iff hwell).mp hother
    have hne : otherId = id ↔ other = cursor := by
      constructor
      · rintro rfl
        exact hcarries.unique.2 hplace hstands
      · rintro rfl
        exact hcarries.unique.1 hplace hstands
    rw [← hcarries.mem_iff hplace hall, habove, ne_eq, ne_eq, hne]
    refine and_congr_right fun _ => ⟨?_, fun hmem => ?_⟩
    · rintro ⟨below, hvisits, hmem⟩
      exact (hcarries.mem_iff hstands (hcarries.descendants hplace hvisits)).mp hmem
    · obtain ⟨below, hvisits, -⟩ := hwell.descendants otherId
      exact ⟨below, hvisits,
        (hcarries.mem_iff hstands (hcarries.descendants hplace hvisits)).mpr hmem⟩

end Arena.Carries

/-- Whatever calls a tree is made by, zero-width nodes included, it is well formed, and so are all
nodes that were made on the way: under their numbers, parents and children say the same of each
other. The cursors of the tree are the numbers below its root. -/
theorem Builder.finish_wellFormed {calls : List Builder.Call} {builder : Builder} {root : Nat}
    {tree : Tree} (hrun : Builder.empty.run calls = .ok builder)
    (hfinish : builder.finish root = .ok tree) :
    tree.WellFormed ∧ ∃ arena, Arena.empty.run calls = .ok arena ∧ arena.WellFormed ∧
      Arena.Carries arena root tree := by
  obtain ⟨arena, harena, hdescribes⟩ := Arena.exists_run hrun
  have hlinked := Arena.linked_empty.run harena
  have hcarries := hdescribes.carries hlinked hfinish
  exact ⟨hcarries.wellFormed hlinked.wellFormed, arena, harena, hlinked.wellFormed, hcarries⟩

/-- A name between two marks without text, with an empty error node at its end, made in another
order than they stand in; the second name stays without a parent. -/
def markedCalls : List Builder.Call := [
  .token .semi ⟨1, 1, by decide⟩ "", .token .varId ⟨0, 1, by decide⟩ "f",
  .token .varId ⟨0, 1, by decide⟩ "g", .node .error ⟨1, 1, by decide⟩ [] .none,
  .node (.construct .qualifiedName) ⟨0, 1, by decide⟩ [1] .none,
  .token .leftBrace ⟨0, 0, by decide⟩ "",
  .node (.construct .module) ⟨0, 1, by decide⟩ [5, 4, 0, 3] .none]

theorem Builder.finish_wellFormed_of_marks : ∃ builder tree,
    Builder.empty.run markedCalls = .ok builder ∧ builder.finish 6 = .ok tree ∧
      tree.WellFormed ∧ tree.cursors.map (·.path) = [[], [0], [1], [1, 0], [2], [3]] ∧
        ∃ arena, Arena.empty.run markedCalls = .ok arena ∧ arena.WellFormed ∧
          Arena.Carries arena 6 tree ∧ arena.children 6 = [5, 4, 0, 3] ∧
            arena.parent? 3 = some 6 ∧ arena.parent? 2 = none := by
  obtain ⟨builder, hrun⟩ : ∃ builder, Builder.empty.run markedCalls = .ok builder := ⟨_, rfl⟩
  obtain ⟨tree, hfinish⟩ : ∃ tree, builder.finish 6 = .ok tree := by
    cases hrun
    exact ⟨_, rfl⟩
  obtain ⟨htree, arena, harena, hwell, hcarries⟩ := Builder.finish_wellFormed hrun hfinish
  refine ⟨builder, tree, hrun, hfinish, htree, ?_, arena, harena, hwell, hcarries, ?_⟩
  · cases hrun
    cases hfinish
    rfl
  · cases harena
    exact ⟨rfl, rfl, rfl⟩

end LosslessTree
