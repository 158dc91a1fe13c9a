import LosslessTree.Proofs.Token.Source
import LosslessTree.Proofs.Token.Tiling

/-!
Marks come between the tokens of a text and change nothing else. Each of them stands, perhaps with
others, in front of a token that is no blank or comment, and at the place where that token starts.
-/

namespace LosslessTree

namespace Layout

open Token

/-- A mark of a block in front of some tokens. Behind it there may be more marks, and then comes the
token at whose start it stands. -/
structure Announces (mark : Token) (behind : List Token) : Prop where
  kind : IsMark mark.kind
  token : ∃ token, behind.find? (!·.isVirtual) = some token ∧ token.isTrivia = false ∧
    mark = .zeroWidth mark.kind token.span.start

def Announced (tokens : List Token) : Prop :=
  ∀ front mark behind, tokens = front ++ mark :: behind → mark.isVirtual = true →
    Announces mark behind

theorem announced_nil : Announced [] := fun front mark behind heq =>
  absurd heq.symm (List.append_ne_nil_of_right_ne_nil front (List.cons_ne_nil mark behind))

theorem announced_cons {token : Token} {rest : List Token}
    (htoken : token.isVirtual = true → Announces token rest) (hrest : Announced rest) :
    Announced (token :: rest) := by
  intro front mark behind heq hvirtual
  cases front with
  | nil =>
      obtain ⟨rfl, rfl⟩ := List.cons.inj heq
      exact htoken hvirtual
  | cons _ front => exact hrest front mark behind (List.cons.inj heq).2 hvirtual

theorem announced_cons_of_wide {token : Token} (hwide : token.isVirtual = false)
    {rest : List Token} (hrest : Announced rest) : Announced (token :: rest) :=
  announced_cons (fun hvirtual => absurd hvirtual (by rw [hwide]; exact Bool.false_ne_true)) hrest

theorem isVirtual_marksAt {token : Token} {marks : List TokenKind}
    (hmarks : ∀ mark ∈ marks, IsMark mark) :
    ∀ other ∈ marksAt token marks, other.isVirtual = true := by
  intro other hother
  obtain ⟨mark, hmark, rfl⟩ := List.mem_map.mp hother
  exact isVirtual_zeroWidth (hmarks mark hmark).ne_eof _

theorem marksAt_announced {token : Token} (hwide : token.isVirtual = false)
    (htrivia : token.isTrivia = false) {rest : List Token} (hrest : Announced rest)
    {marks : List TokenKind} (hmarks : ∀ mark ∈ marks, IsMark mark) :
    Announced (marksAt token marks ++ token :: rest) := by
  induction marks with
  | nil => exact announced_cons_of_wide hwide hrest
  | cons mark marks ih =>
      obtain ⟨hmark, hmarks⟩ := List.forall_mem_cons.mp hmarks
      have hnone : (marksAt token marks).find? (!·.isVirtual) = none := by
        simpa using isVirtual_marksAt hmarks
      have hfind : (marksAt token marks ++ token :: rest).find? (!·.isVirtual) = some token := by
        rw [List.find?_append, hnone, Option.none_or, List.find?_cons_of_pos (by simp [hwide])]
      exact announced_cons (fun _ => ⟨hmark, token, hfind, htrivia, rfl⟩) (ih hmarks)

theorem run_announced {tokens : List Token} (hwide : ∀ token ∈ tokens, token.isVirtual = false)
    (state : State) : Announced (run state tokens) := by
  induction tokens generalizing state with
  | nil => exact announced_nil
  | cons token rest ih =>
      obtain ⟨hwide, hrest⟩ := List.forall_mem_cons.mp hwide
      unfold run
      split
      · exact announced_cons_of_wide hwide (ih hrest _)
      · next htrivia =>
          have htrivia := Bool.eq_false_iff.mpr htrivia
          split
          · exact marksAt_announced hwide htrivia announced_nil (finish_marks state)
          · exact marksAt_announced hwide htrivia (ih hrest _) (step_marks token state)

theorem filter_isVirtual {token : Token} (hwide : token.isVirtual = false) {marks : List TokenKind}
    (hmarks : ∀ mark ∈ marks, IsMark mark) (rest : List Token) :
    (marksAt token marks ++ token :: rest).filter (!·.isVirtual) =
      token :: rest.filter (!·.isVirtual) := by
  have hnone : (marksAt token marks).filter (!·.isVirtual) = [] := by
    simpa using isVirtual_marksAt hmarks
  rw [List.filter_append, hnone, List.nil_append, List.filter_cons_of_pos (by simp [hwide])]

theorem run_filter (state : State) {tokens : List Token}
    (htokens : ∀ token ∈ tokens, token.kind ≠ .eof ∧ token.isVirtual = false) (stop : Nat) :
    (run state (tokens ++ [eof stop])).filter (!·.isVirtual) = tokens ++ [eof stop] := by
  induction tokens generalizing state with
  | nil => exact filter_isVirtual (isVirtual_eof stop) (finish_marks state) []
  | cons token rest ih =>
      obtain ⟨⟨hkind, hwide⟩, hrest⟩ := List.forall_mem_cons.mp htokens
      rw [List.cons_append]
      cases htrivia : token.isTrivia with
      | true =>
          rw [run_of_trivia htrivia, List.filter_cons_of_pos (by simp [hwide]), ih _ hrest]
      | false =>
          rw [run_of_significant htrivia hkind, filter_isVirtual hwide (step_marks token state),
            ih _ hrest]

/-- The tokens of a text stay as they are, and what is put between them are marks in front of a token
with content or the end, in the order of the text. -/
theorem insertMarks_inserts (mode : Mode) (text : String) :
    (insertMarks mode (Token.ofText text)).filter (!·.isVirtual) = Token.ofText text ∧
      Announced (insertMarks mode (Token.ofText text)) ∧
      Token.Ordered (insertMarks mode (Token.ofText text)) := by
  obtain ⟨front, stop, heq, hfront⟩ := Token.scan_ends 0 text.toList
  have hwide : ∀ token ∈ front, token.kind ≠ .eof ∧ token.isVirtual = false := fun token htoken =>
    ⟨hfront token htoken,
      scan_wide (heq ▸ List.mem_append_left [eof stop] htoken) (hfront token htoken)⟩
  refine ⟨?_, ?_, tokensOfText_ordered ⟨0, mode⟩ text⟩
  · rw [Token.ofText, heq]
    exact run_filter (start mode) hwide stop
  · rw [Token.ofText, heq]
    refine run_announced (List.forall_mem_append.mpr ⟨fun token htoken => (hwide token htoken).2, ?_⟩)
      (start mode)
    exact List.forall_mem_singleton.mpr (isVirtual_eof stop)

end Layout

end LosslessTree
