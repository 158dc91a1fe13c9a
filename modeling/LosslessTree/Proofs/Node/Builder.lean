import LosslessTree.Proofs.Words.Assembly
import LosslessTree.Proofs.Text.Apart

/-!
Trees built from numbered nodes are those that one would write down at once. What a builder gains
by some steps is told by the nodes that are still without parents, and by how many nodes were made
for them, which is as many as there are at and below them.
-/

namespace LosslessTree

namespace Node

def around (kind : NodeKind) (payload : Payload) (offset : Nat) (children : List Node) : Node :=
  mk kind (Span.around offset (children.map span)) payload children

/-- Children in order and apart pass all checks of a parent that covers them. -/
theorem checkChildren_of_apart (kind : NodeKind) {outer : Span} {low high : Nat}
    {children : List Node} (hlow : outer.start ≤ low) (hhigh : high ≤ outer.stop)
    (happart : Span.Apart low (children.map span) high) :
    checkChildren kind outer low children = .ok () := by
  induction children generalizing low with
  | nil => rfl
  | cons child rest ih =>
      obtain ⟨hchild, hrest⟩ := happart
      have hcontains : outer.contains child.span = true :=
        Span.contains_iff.mpr ⟨Nat.le_trans hlow hchild, Nat.le_trans hrest.le hhigh⟩
      have hcheck : checkChild kind outer low child = .ok () := by
        simp [checkChild, hcontains, Nat.not_lt.mpr hchild]
      simp only [checkChildren, hcheck]
      exact ih (Nat.le_trans hlow (Nat.le_trans hchild child.span.start_le_stop)) hrest

end Node

namespace Builder

/-- Nodes without parents, at ascending numbers from a bound on. -/
inductive Holds (builder : Builder) : (bound : Nat) → List Nat → List Node → Prop where
  | nil (bound : Nat) : Holds builder bound [] []
  | cons {bound id : Nat} {ids : List Nat} {node : Node} {nodes : List Node}
      (hid : bound ≤ id) (hentry : builder.nodes[id]? = some (node, false))
      (hrest : Holds builder (id + 1) ids nodes) : Holds builder bound (id :: ids) (node :: nodes)

def AgreesBelow (bound : Nat) (left right : Builder) : Prop :=
  ∀ id < bound, right.nodes[id]? = left.nodes[id]?

variable {builder before middle after : Builder} {bound : Nat} {ids more : List Nat}
  {nodes others : List Node}

theorem lt_size_of_entry {id : Nat} {entry : Node × Bool}
    (hentry : builder.nodes[id]? = some entry) : id < builder.nodes.size :=
  (Array.getElem?_eq_some_iff.mp hentry).1

namespace Holds

theorem weaken {lower : Nat} (hholds : Holds builder bound ids nodes) (hlower : lower ≤ bound) :
    Holds builder lower ids nodes := by
  cases hholds with
  | nil => exact .nil lower
  | cons hid hentry hrest => exact .cons (Nat.le_trans hlower hid) hentry hrest

theorem congr (hholds : Holds before bound ids nodes)
    (hsame : ∀ id, bound ≤ id → id < before.nodes.size → after.nodes[id]? = before.nodes[id]?) :
    Holds after bound ids nodes := by
  induction hholds with
  | nil bound => exact .nil bound
  | cons hid hentry _ ih =>
      refine .cons hid ?_ (ih fun id hlow hhigh => hsame id (by omega) hhigh)
      rw [hsame _ hid (lt_size_of_entry hentry), hentry]

theorem append (hfirst : Holds middle bound ids nodes) (hbound : bound ≤ middle.nodes.size)
    (hkept : AgreesBelow middle.nodes.size middle after)
    (hsecond : Holds after middle.nodes.size more others) :
    Holds after bound (ids ++ more) (nodes ++ others) := by
  induction hfirst with
  | nil => exact hsecond.weaken hbound
  | cons hid hentry _ ih =>
      have hlt := lt_size_of_entry hentry
      exact .cons hid ((hkept _ hlt).trans hentry) (ih hlt)

end Holds

/-- What some steps add to a builder: nodes that wait for a parent, and all that is below them. -/
structure Gains (before after : Builder) (ids : List Nat) (nodes : List Node) : Prop where
  size_eq : after.nodes.size = before.nodes.size + (nodes.flatMap Node.descendants).length
  kept : AgreesBelow before.nodes.size before after
  holds : Holds after before.nodes.size ids nodes

namespace Gains

theorem nil (builder : Builder) : Gains builder builder [] [] :=
  ⟨rfl, fun _ _ => rfl, .nil _⟩

theorem size_le (hgains : Gains before after ids nodes) :
    before.nodes.size ≤ after.nodes.size := by
  have hsize := hgains.size_eq
  omega

theorem append (hfirst : Gains before middle ids nodes) (hsecond : Gains middle after more others) :
    Gains before after (ids ++ more) (nodes ++ others) where
  size_eq := by
    rw [hsecond.size_eq, hfirst.size_eq, List.flatMap_append, List.length_append, Nat.add_assoc]
  kept id hid :=
    (hsecond.kept id (Nat.lt_of_lt_of_le hid hfirst.size_le)).trans (hfirst.kept id hid)
  holds := hfirst.holds.append hfirst.size_le hsecond.kept hsecond.holds

end Gains

theorem agreesBelow_push (builder : Builder) (node : Node) :
    AgreesBelow builder.nodes.size builder (builder.push node).2 := by
  intro id hid
  simp [push, Array.getElem?_push, Nat.ne_of_lt hid]

theorem gains_leaf (builder : Builder) (token : Token) :
    Gains builder (builder.token token.kind token.span token.text).2
      [builder.nodes.size] [.ofToken token] where
  size_eq := Array.size_push _
  kept := agreesBelow_push builder _
  holds := .cons (Nat.le_refl _) (by simp [Builder.token, push, Node.ofToken]) (.nil _)

theorem gains_leaves (builder : Builder) (tokens : List Token) :
    Gains builder (builder.leaves tokens).2 (builder.leaves tokens).1
      (tokens.map Node.ofToken) := by
  induction tokens generalizing builder with
  | nil => exact .nil builder
  | cons token rest ih => exact (gains_leaf builder token).append (ih _)

/-- Children that pass the checks can be taken, which changes only their own entries. -/
theorem take_of_holds {kind : NodeKind} {span : Span} {siblingStop : Nat}
    (hholds : Holds builder bound ids nodes)
    (hcheck : Node.checkChildren kind span siblingStop nodes = .ok ()) :
    ∃ after, take kind span siblingStop builder ids = .ok (nodes, after) ∧
      after.nodes.size = builder.nodes.size ∧ AgreesBelow bound builder after := by
  induction ids generalizing builder bound nodes siblingStop with
  | nil =>
      cases hholds with
      | nil => exact ⟨builder, rfl, rfl, fun _ _ => rfl⟩
  | cons id rest ih =>
      cases hholds with
      | @cons _ _ _ child children hid hentry hrest =>
          unfold Node.checkChildren at hcheck
          split at hcheck
          · cases hcheck
          · next hchild =>
              -- Numbers ascend, so a child that is taken is not among the ones still to come.
              have htaken : Holds ⟨builder.nodes.setIfInBounds id (child, true)⟩ (id + 1) rest
                  children := by
                apply hrest.congr
                intro other hother _
                simp only [Array.getElem?_setIfInBounds, if_neg (show id ≠ other by omega)]
              obtain ⟨after, htake, hsize, hagrees⟩ := ih htaken hcheck
              refine ⟨after, ?_, by simpa using hsize, ?_⟩
              · simp [take, hentry, hchild, htake]
              · intro other hother
                rw [hagrees other (by omega)]
                simp only [Array.getElem?_setIfInBounds, if_neg (show id ≠ other by omega)]

theorem Holds.head? (hholds : Holds builder bound ids nodes) :
    ids.head?.bind (fun id => builder.nodes[id]?) = nodes.head?.map (·, false) := by
  cases hholds with
  | nil => rfl
  | cons _ hentry _ => exact hentry

theorem Holds.getLast? (hholds : Holds builder bound ids nodes) :
    ids.getLast?.bind (fun id => builder.nodes[id]?) = nodes.getLast?.map (·, false) := by
  induction hholds with
  | nil => rfl
  | cons _ hentry hrest ih =>
      cases hrest with
      | nil => exact hentry
      | cons => rwa [List.getLast?_cons_cons, List.getLast?_cons_cons]

theorem spanOf_of_holds {low high : Nat} (hholds : Holds builder bound ids nodes)
    (happart : Span.Apart low (nodes.map Node.span) high) (offset : Nat) :
    builder.spanOf offset ids = .ok (Span.around offset (nodes.map Node.span)) := by
  have hhead := hholds.head?
  have hlast := hholds.getLast?
  cases hholds with
  | nil => rfl
  | @cons _ id ids node nodes _ hentry hrest =>
      have hids := List.getLast?_eq_some_getLast (List.cons_ne_nil id ids)
      have hnodes := List.getLast?_eq_some_getLast (List.cons_ne_nil node nodes)
      rw [hids, hnodes] at hlast
      have hlastEntry : builder.nodes[(id :: ids).getLast _]? = _ := hlast
      have hbetween := happart.between_around offset rfl
        (by rw [List.getLast?_map, hnodes]; rfl)
      simp only [spanOf, List.head?_cons, hids, hentry, hlastEntry, Option.map_some]
      rw [hbetween]

theorem checkChildren_around {low high : Nat} (kind : NodeKind) (offset : Nat)
    (happart : Span.Apart low (nodes.map Node.span) high) :
    Node.checkChildren kind (Span.around offset (nodes.map Node.span))
      (Span.around offset (nodes.map Node.span)).start nodes = .ok () := by
  cases nodes with
  | nil => rfl
  | cons node rest =>
      exact Node.checkChildren_of_apart kind (Nat.le_refl _) (Nat.le_refl _)
        (happart.inside_around offset (List.cons_ne_nil _ _))

theorem Gains.around (hgains : Gains before after ids nodes) {low high : Nat}
    (happart : Span.Apart low (nodes.map Node.span) high) (kind : NodeKind) (payload : Payload)
    (offset : Nat) :
    ∃ id last, after.around kind payload offset ids = .ok (id, last) ∧
      Gains before last [id] [.around kind payload offset nodes] := by
  obtain ⟨taken, htake, hsize, hagrees⟩ :=
    take_of_holds hgains.holds (checkChildren_around kind offset happart)
  have hspan := spanOf_of_holds hgains.holds happart offset
  have htotal := hgains.size_eq
  refine ⟨taken.nodes.size, (taken.push (.around kind payload offset nodes)).2, ?_, ?_, ?_, ?_⟩
  · simp only [Builder.around, hspan, node, htake]
    rfl
  · rw [push, Array.size_push, hsize, htotal, List.flatMap_singleton, Node.descendants_eq,
      List.length_cons, Nat.add_assoc]
    rfl
  · intro id hid
    have hkept := hgains.size_le
    rw [agreesBelow_push taken _ id (by omega), hagrees id hid, hgains.kept id hid]
  · refine .cons ?_ (by simp [push]) (.nil _)
    rw [hsize]
    exact hgains.size_le

end Builder

end LosslessTree
