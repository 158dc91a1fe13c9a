import LosslessTree.Proofs.Node.Builder

/-!
The leaves and the error nodes of a tree, in the order of the text. A parent adds to those of its
children at most itself.
-/

namespace LosslessTree

namespace Node

def leaves (node : Node) : List Node := node.descendants.filter (·.tokenText?.isSome)

def errors (node : Node) : List Node := node.descendants.filter isError

variable {test : Node → Bool} {node : Node}

theorem filter_descendants_of_pos (htest : test node = true) :
    node.descendants.filter test =
      node :: node.children.flatMap fun child => child.descendants.filter test := by
  rw [descendants_eq, List.filter_cons_of_pos htest, List.filter_flatMap]

theorem filter_descendants_of_neg (htest : test node = false) :
    node.descendants.filter test =
      node.children.flatMap fun child => child.descendants.filter test := by
  rw [descendants_eq, List.filter_cons_of_neg (by simp [htest]), List.filter_flatMap]

@[simp] theorem leaves_ofToken (token : Token) : (ofToken token).leaves = [ofToken token] := rfl

@[simp] theorem errors_ofToken (token : Token) : (ofToken token).errors = [] := rfl

theorem leaves_map_ofToken (tokens : List Token) :
    (tokens.map ofToken).flatMap leaves = tokens.map ofToken := by
  induction tokens with
  | nil => rfl
  | cons token rest ih =>
      rw [List.map_cons, List.flatMap_cons, ih, leaves_ofToken, List.singleton_append]

theorem errors_map_ofToken (tokens : List Token) :
    (tokens.map ofToken).flatMap errors = [] := by
  induction tokens with
  | nil => rfl
  | cons token rest ih => rw [List.map_cons, List.flatMap_cons, ih, errors_ofToken, List.nil_append]

variable {kind : NodeKind} {payload : Payload} {offset : Nat} {children : List Node}

theorem leaves_around (hpayload : ∀ text, payload ≠ .text text) :
    (around kind payload offset children).leaves = children.flatMap leaves := by
  have hself : (around kind payload offset children).tokenText?.isSome = false := by
    cases payload with
    | none => rfl
    | text text => exact absurd rfl (hpayload text)
    | expected set => rfl
  exact filter_descendants_of_neg hself

theorem errors_around (hkind : kind ≠ .error) :
    (around kind payload offset children).errors = children.flatMap errors := by
  have hself : (around kind payload offset children).isError = false := by
    simpa [isError, around] using hkind
  exact filter_descendants_of_neg hself

theorem errors_around_error :
    (around .error payload offset children).errors =
      around .error payload offset children :: children.flatMap errors :=
  filter_descendants_of_pos rfl

end Node

end LosslessTree
