import LosslessTree.Access.Projection
import LosslessTree.Proofs.Grammar.Accessors
import LosslessTree.Proofs.Node.Cursor

/-!
When access to the children of a kind succeeds: there must be as many of them as the production
permits.
-/

namespace LosslessTree

open Grammar

def Node.countOf (kind : NodeKind) (node : Node) : Nat := node.children.countP (·.kind = kind)

namespace Projection

theorem of_eq_ok {grammar : Grammar} {cursor : Cursor} {projection : Projection}
    (hview : of grammar cursor = .ok projection) :
    projection.cursor = cursor ∧ grammar.production? cursor.kind = some projection.production := by
  unfold of Grammar.production at hview
  cases hproduction : grammar.production? cursor.kind with
  | none =>
      rw [hproduction] at hview
      cases hview
  | some production =>
      rw [hproduction] at hview
      cases hview
      exact ⟨rfl, rfl⟩

variable (projection : Projection) (child : NodeKind)

theorem length_childrenOf :
    (projection.childrenOf child).length = projection.cursor.focus.countOf child := by
  rw [Node.countOf, ← Cursor.children_focus, List.countP_map, List.countP_eq_length_filter]
  rfl

variable {projection} {child}

/-- Asking for a child that there may be once fails only where the production says otherwise. -/
theorem optional_error
    (hcount : projection.production.accessor? child = some .zeroOrOne →
      projection.cursor.focus.countOf child ≤ 1) {error : Error}
    (herror : projection.optional child = .error error) :
    error = projection.mismatch child .zeroOrOne := by
  unfold optional guarded at herror
  split at herror
  · next haccessor =>
      have hle := hcount haccessor
      rw [← length_childrenOf] at hle
      match hchildren : projection.childrenOf child with
      | [] =>
          rw [hchildren] at herror
          cases herror
      | [_] =>
          rw [hchildren] at herror
          cases herror
      | _ :: _ :: _ =>
          rw [hchildren] at hle
          simp at hle
  · exact (Except.error.inj herror).symm

/-- With as many children as permitted, access in the multiplicity of the production succeeds. -/
theorem exists_get {multiplicity : Multiplicity}
    (haccessor : projection.production.accessor? child = some multiplicity)
    (hmultiplicity : multiplicity ≠ .oneOrMore)
    (hcount : multiplicity.Permits (projection.cursor.focus.countOf child)) :
    ∃ found, projection.get child = .ok found := by
  rw [← length_childrenOf] at hcount
  unfold get
  rw [haccessor]
  cases multiplicity with
  | exactlyOne =>
      obtain ⟨found, hfound⟩ := List.length_eq_one_iff.mp hcount
      exact ⟨.one found, by simp only [one, guarded, haccessor, if_true, hfound]; rfl⟩
  | zeroOrOne =>
      match hchildren : projection.childrenOf child with
      | [] => exact ⟨.optional none, by
          simp only [optional, guarded, haccessor, if_true, hchildren]; rfl⟩
      | [found] => exact ⟨.optional (some found), by
          simp only [optional, guarded, haccessor, if_true, hchildren]; rfl⟩
      | _ :: _ :: _ =>
          rw [hchildren] at hcount
          simp [Multiplicity.Permits] at hcount
  | zeroOrMore =>
      exact ⟨.many _, by simp only [list, guarded, haccessor, if_true]; rfl⟩
  | oneOrMore => exact absurd rfl hmultiplicity

end Projection

end LosslessTree
