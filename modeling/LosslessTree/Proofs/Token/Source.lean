import LosslessTree.Parse.Basic
import LosslessTree.Proofs.Parse.Stream

/-!
Tokens of a text stand in its order. Reading goes on where the last token ended, and marks of
indentation take no room.
-/

namespace LosslessTree

namespace Token

structure OrderedFrom (low : Nat) (tokens : List Token) : Prop where
  low : ∀ token ∈ tokens, low ≤ token.span.start
  ordered : Ordered tokens

namespace OrderedFrom

variable {low : Nat} {tokens : List Token}

theorem weaken (htokens : OrderedFrom low tokens) {lower : Nat} (hlower : lower ≤ low) :
    OrderedFrom lower tokens :=
  ⟨fun token htoken => Nat.le_trans hlower (htokens.low token htoken), htokens.ordered⟩

theorem nil (low : Nat) : OrderedFrom low [] :=
  ⟨fun _ htoken => absurd htoken List.not_mem_nil, .nil⟩

theorem cons {token : Token} (hlow : low ≤ token.span.start)
    (htokens : OrderedFrom token.span.stop tokens) : OrderedFrom low (token :: tokens) where
  low := List.forall_mem_cons.mpr ⟨hlow,
    (htokens.weaken (Nat.le_trans hlow token.span.start_le_stop)).low⟩
  ordered := List.pairwise_cons.mpr ⟨htokens.low, htokens.ordered⟩

theorem tail {token : Token} (htokens : OrderedFrom low (token :: tokens)) :
    low ≤ token.span.start ∧ OrderedFrom token.span.stop tokens := by
  obtain ⟨hbehind, hordered⟩ := List.pairwise_cons.mp htokens.ordered
  exact ⟨htokens.low token List.mem_cons_self, hbehind, hordered⟩

end OrderedFrom

theorem scan_ordered (offset : Nat) (text : List Char) :
    OrderedFrom offset (scan offset text) := by
  induction offset, text using scan.induct with
  | case1 offset =>
      rw [scan]
      exact .cons (Nat.le_refl offset) (.nil _)
  | case2 offset c rest lexeme token ih =>
      rw [scan]
      exact .cons (Nat.le_refl offset) ih

end Token

namespace Layout

open Token

theorem marks_ordered {low : Nat} {token : Token} {rest : List Token}
    (hlow : low ≤ token.span.start) (hrest : OrderedFrom token.span.start rest)
    (marks : List TokenKind) :
    OrderedFrom low (marksAt token marks ++ rest) := by
  induction marks generalizing low with
  | nil => exact hrest.weaken hlow
  | cons mark marks ih => exact .cons hlow (ih (Nat.le_refl _))

theorem run_ordered {low : Nat} (state : State) {tokens : List Token}
    (htokens : OrderedFrom low tokens) : OrderedFrom low (run state tokens) := by
  induction tokens generalizing low state with
  | nil => exact .nil low
  | cons token rest ih =>
      obtain ⟨hlow, hrest⟩ := htokens.tail
      unfold run
      split
      · exact .cons hlow (ih _ hrest)
      · split
        · exact marks_ordered hlow (.cons (Nat.le_refl _) (.nil _)) _
        · exact marks_ordered hlow (.cons (Nat.le_refl _) (ih _ hrest)) _

end Layout

theorem tokensOfText_ordered (settings : Settings) (text : String) :
    Token.Ordered (tokensOfText settings text) :=
  (Layout.run_ordered (Layout.start settings.layout) (Token.scan_ordered 0 text.toList)).ordered

end LosslessTree
