import Mathlib.Data.List.Forall2
import LosslessTree.Node.Cursor
import LosslessTree.Proofs.Node.Forest

/-!
Builders and arenas do the same call by call, faults included: a builder keeps under each number
the node that the entry of an arena stands for. The cursors of a finished tree stand at the numbers
below its root, one at each, and go to parents and children as the numbers do; so the tree is as
well formed as the arena.
-/

namespace LosslessTree

/-! ## Builders and arenas agree -/

/-- Two results that are one fault, or values that belong together. -/
inductive Agree {α β : Type} (related : α → β → Prop) :
    Except Fault α → Except Fault β → Prop
  | error (fault : Fault) : Agree related (.error fault) (.error fault)
  | ok {left : α} {right : β} (hrelated : related left right) :
      Agree related (.ok left) (.ok right)

namespace Builder

def Keeps (builder : Builder) (id : Nat) (node : Node) : Prop :=
  ∃ taken, builder.nodes[id]? = some (node, taken)

variable {builder : Builder} {id other : Nat} {node child : Node} {taken : Bool}

theorem Keeps.unique (hkeeps : builder.Keeps id node) (hagain : builder.Keeps id child) :
    node = child := by
  obtain ⟨_, hnode⟩ := hkeeps
  obtain ⟨_, hchild⟩ := hagain
  rw [hnode] at hchild
  cases hchild
  rfl

theorem Keeps.push (hkeeps : builder.Keeps id node) (more : Node) :
    (builder.push more).2.Keeps id node := by
  obtain ⟨taken, hnode⟩ := hkeeps
  have hlt : id < builder.nodes.size := (Array.getElem?_eq_some_iff.mp hnode).1
  refine ⟨taken, ?_⟩
  rw [Builder.push, Array.getElem?_push, if_neg (Nat.ne_of_lt hlt), hnode]

theorem Keeps.take (hkeeps : builder.Keeps other node)
    (hchild : builder.nodes[id]? = some (child, taken)) :
    Keeps ⟨builder.nodes.setIfInBounds id (child, true)⟩ other node := by
  by_cases hid : id = other
  · subst hid
    obtain rfl := hkeeps.unique ⟨taken, hchild⟩
    refine ⟨true, ?_⟩
    rw [Array.getElem?_setIfInBounds, if_pos rfl, if_pos (Array.getElem?_eq_some_iff.mp hchild).1]
  · obtain ⟨flag, hnode⟩ := hkeeps
    exact ⟨flag, by rw [Array.getElem?_setIfInBounds, if_neg hid, hnode]⟩

end Builder

namespace Arena

/-- Each entry of an arena stands for a node of a builder, with its children in it. -/
structure Describes (arena : Arena) (builder : Builder) : Prop where
  size : arena.size = builder.nodes.size
  entry {id : Nat} {entry : Entry} : arena.entries[id]? = some entry →
    ∃ children, builder.nodes[id]? =
        some (.mk entry.kind entry.span entry.payload children, entry.parent.isSome) ∧
      List.Forall₂ builder.Keeps entry.children children

variable {arena : Arena} {builder : Builder} {id : Nat} {entry : Entry} {ids : List Nat}

theorem describes_empty : Describes empty Builder.empty where
  size := rfl
  entry hentry := by cases hentry

theorem Describes.nodes_eq_none (hdescribes : Describes arena builder)
    (hentry : arena.entries[id]? = none) : builder.nodes[id]? = none := by
  rw [Array.getElem?_eq_none_iff] at hentry ⊢
  exact Nat.le_trans (Nat.le_of_eq hdescribes.size.symm) hentry

theorem Describes.link (hdescribes : Describes arena builder) (parent : Nat)
    (hentry : arena.entries[id]? = some entry) {child : Node} {taken : Bool}
    (hchild : builder.nodes[id]? = some (child, taken)) :
    Describes (arena.link id entry parent) ⟨builder.nodes.setIfInBounds id (child, true)⟩ where
  size := by rw [size_link, hdescribes.size, Array.size_setIfInBounds]
  entry {other found} hfound := by
    have hkept (ids : List Nat) (nodes : List Node)
        (hnodes : List.Forall₂ builder.Keeps ids nodes) :
        List.Forall₂ (Builder.Keeps ⟨builder.nodes.setIfInBounds id (child, true)⟩) ids nodes :=
      hnodes.imp fun _ _ hkeeps => hkeeps.take hchild
    rw [entries_link hentry] at hfound
    split at hfound
    · next hid =>
        subst hid
        cases hfound
        obtain ⟨children, hnode, hchildren⟩ := hdescribes.entry hentry
        rw [hnode] at hchild
        cases hchild
        refine ⟨children, ?_, hkept _ _ hchildren⟩
        rw [Array.getElem?_setIfInBounds, if_pos rfl,
          if_pos (Array.getElem?_eq_some_iff.mp hnode).1]
        rfl
    · next hid =>
        obtain ⟨children, hnode, hchildren⟩ := hdescribes.entry hfound
        refine ⟨children, ?_, hkept _ _ hchildren⟩
        rw [Array.getElem?_setIfInBounds, if_neg hid, hnode]

theorem Describes.push (hdescribes : Describes arena builder) (kind : NodeKind) (span : Span)
    (payload : Payload) {children : List Node}
    (hchildren : List.Forall₂ builder.Keeps ids children) :
    Describes (arena.push kind span payload ids).2
      (builder.push (.mk kind span payload children)).2 where
  size := by rw [size_push, Builder.push, Array.size_push, hdescribes.size]
  entry {other found} hfound := by
    have hsize : arena.entries.size = builder.nodes.size := hdescribes.size
    rw [Arena.push, Array.getElem?_push] at hfound
    split at hfound
    · next hother =>
        cases hfound
        refine ⟨children, ?_, hchildren.imp fun _ _ hkeeps => hkeeps.push _⟩
        rw [Builder.push, Array.getElem?_push, if_pos (hother.trans hsize)]
        rfl
    · next hother =>
        obtain ⟨others, hnode, hothers⟩ := hdescribes.entry hfound
        refine ⟨others, ?_, hothers.imp fun _ _ hkeeps => hkeeps.push _⟩
        rw [Builder.push, Array.getElem?_push, if_neg (hsize ▸ hother), hnode]

theorem Describes.adopt_agrees (hdescribes : Describes arena builder) (kind : NodeKind)
    (outer : Span) (parent siblingStop : Nat) (ids : List Nat) :
    Agree (fun after taken => Describes after taken.2 ∧
        List.Forall₂ taken.2.Keeps ids taken.1 ∧
        ∀ id node, builder.Keeps id node → taken.2.Keeps id node)
      (adopt kind outer parent siblingStop arena ids)
      (Builder.take kind outer siblingStop builder ids) := by
  induction ids generalizing siblingStop arena builder with
  | nil => exact .ok ⟨hdescribes, .nil, fun _ _ hkeeps => hkeeps⟩
  | cons id rest ih =>
      unfold adopt Builder.take
      cases hentry : arena.entries[id]? with
      | none =>
          rw [hdescribes.nodes_eq_none hentry]
          exact .error .noNode
      | some entry =>
          obtain ⟨children, hnode, -⟩ := hdescribes.entry hentry
          have hcheck : Node.checkChild kind outer siblingStop
              (.mk entry.kind entry.span entry.payload children) =
                Node.checkChild kind outer siblingStop entry.bare := rfl
          simp only [hnode, hcheck]
          cases Node.checkChild kind outer siblingStop entry.bare with
          | error fault => exact .error fault
          | ok =>
              cases hparent : entry.parent.isSome with
              | true => exact .error (.taken entry.kind)
              | false =>
                  have hrest := ih (hdescribes.link parent hentry hnode)
                    entry.span.stop
                  simp only [Bool.false_eq_true, if_false, Node.span_mk]
                  generalize adopt kind outer parent entry.span.stop (arena.link id entry parent)
                    rest = adopted at hrest ⊢
                  generalize Builder.take kind outer entry.span.stop _ rest = taken at hrest ⊢
                  cases hrest with
                  | error fault => exact .error fault
                  | ok hrelated =>
                      obtain ⟨hafter, hnodes, hkept⟩ := hrelated
                      have hgrown (other : Nat) (node : Node) (hkeeps : builder.Keeps other node) :=
                        hkept other node (hkeeps.take hnode)
                      exact .ok ⟨hafter, .cons (hgrown id _ ⟨_, hnode⟩) hnodes, hgrown⟩

theorem Describes.call_agrees (hdescribes : Describes arena builder) (call : Builder.Call) :
    Agree (fun left right => left.1 = right.1 ∧ Describes left.2 right.2)
      (arena.call call) (builder.call call) := by
  cases call with
  | token kind span text => exact .ok ⟨hdescribes.size, hdescribes.push _ _ _ .nil⟩
  | node kind span children payload =>
      have hadopt := hdescribes.adopt_agrees kind span arena.size span.start children
      unfold Arena.call Builder.call Builder.node
      dsimp only
      generalize adopt kind span arena.size span.start arena children = adopted at hadopt ⊢
      generalize Builder.take kind span span.start builder children = taken at hadopt ⊢
      cases hadopt with
      | error fault => exact .error fault
      | ok hrelated =>
          obtain ⟨hafter, hnodes, -⟩ := hrelated
          exact .ok ⟨hafter.size, hafter.push _ _ _ hnodes⟩

/-- Arenas fail where builders do, with the same fault, and else describe them. -/
theorem Describes.run_agrees (hdescribes : Describes arena builder) (calls : List Builder.Call) :
    Agree Describes (arena.run calls) (builder.run calls) := by
  induction calls generalizing arena builder with
  | nil => exact .ok hdescribes
  | cons call rest ih =>
      have hcall := hdescribes.call_agrees call
      unfold Arena.run Builder.run
      generalize arena.call call = left at hcall ⊢
      generalize builder.call call = right at hcall ⊢
      cases hcall with
      | error fault => exact .error fault
      | ok hrelated => exact ih hrelated.2

theorem exists_run {calls : List Builder.Call} (hrun : Builder.empty.run calls = .ok builder) :
    ∃ arena, empty.run calls = .ok arena ∧ Describes arena builder := by
  have hagrees := describes_empty.run_agrees calls
  rw [hrun] at hagrees
  cases harena : empty.run calls with
  | error fault =>
      rw [harena] at hagrees
      cases hagrees
  | ok arena =>
      rw [harena] at hagrees
      cases hagrees with
      | ok hdescribes => exact ⟨arena, rfl, hdescribes⟩

end Arena

end LosslessTree
