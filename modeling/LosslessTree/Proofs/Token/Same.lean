import Mathlib.Data.List.Forall2
import LosslessTree.Layout.Blocks
import LosslessTree.Token.Source

/-!
Tokens that say the same at different places. A text reads the same wherever it stands, and layout
puts the same marks between tokens that say the same.
-/

namespace LosslessTree

/-- Tokens that no grammar tells apart. -/
structure Token.Same (left right : Token) : Prop where
  kind : left.kind = right.kind
  text : left.text = right.text

namespace Token

namespace Same

variable {left right : Token}

theorem refl (token : Token) : token.Same token := ⟨rfl, rfl⟩

theorem isTrivia_eq (hsame : left.Same right) : left.isTrivia = right.isTrivia :=
  congrArg TokenKind.isTrivia hsame.kind

end Same

theorem countP_same {tokens others : List Token} (hsame : List.Forall₂ Same tokens others) :
    tokens.countP (!·.isTrivia) = others.countP (!·.isTrivia) := by
  induction hsame with
  | nil => rfl
  | cons hfirst _ ih => rw [List.countP_cons, List.countP_cons, ih, hfirst.isTrivia_eq]

theorem scan_same (offset other : Nat) (text : List Char) :
    List.Forall₂ Same (scan offset text) (scan other text) := by
  induction offset, text using scan.induct generalizing other with
  | case1 offset =>
      rw [scan, scan]
      exact .cons ⟨rfl, rfl⟩ .nil
  | case2 offset c rest lexeme token ih =>
      rw [scan, scan]
      exact .cons ⟨rfl, rfl⟩ (ih _)

end Token

namespace Layout

open Token

variable {left right : Token}

theorem pass_same (hsame : left.Same right) (state : State) : pass left state = pass right state := by
  rw [pass, pass, hsame.text, hsame.isTrivia_eq]

theorem step_same (hsame : left.Same right) (state : State) : step left state = step right state := by
  unfold step
  simp only [hsame.kind, pass_same hsame]

theorem marksAt_same (left right : Token) (marks : List TokenKind) :
    List.Forall₂ Same (marksAt left marks) (marksAt right marks) := by
  induction marks with
  | nil => exact .nil
  | cons mark marks ih => exact .cons ⟨rfl, rfl⟩ ih

theorem run_same (state : State) {tokens others : List Token}
    (hsame : List.Forall₂ Same tokens others) :
    List.Forall₂ Same (run state tokens) (run state others) := by
  induction hsame generalizing state with
  | nil => exact .nil
  | @cons token other _ _ hfirst _ ih =>
      unfold run
      rw [hfirst.isTrivia_eq, hfirst.kind]
      split
      · rw [pass_same hfirst]
        exact .cons hfirst (ih _)
      · split
        · exact List.rel_append (marksAt_same _ _ _) (.cons hfirst .nil)
        · rw [step_same hfirst]
          exact List.rel_append (marksAt_same _ _ _) (.cons hfirst (ih _))

end Layout

end LosslessTree
